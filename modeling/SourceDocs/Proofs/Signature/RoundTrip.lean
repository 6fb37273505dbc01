import SourceDocs.Profile.Builtin
import SourceDocs.Proofs.Signature.List

namespace SourceDocs

namespace Prototype

variable {profile : Profile} {buf : Buffer} {i stop : Nat}

-- By the recursion of the search: every place that it steps to is still in the range.
theorem hasColon_eq_false (hb : buf.WellFormed)
    (h : ∀ k, i ≤ k → k < stop → buf.isChar k ':' = false) :
    hasColon profile buf stop i = false := by
  fun_induction hasColon profile buf stop i
  case case2 hi _ hm _ =>
    rw [Buffer.matchesAt_doubleColon hb, h _ (Nat.le_refl _) hi] at hm
    cases hm
  case case3 hi _ _ hc =>
    rw [h _ (Nat.le_refl _) hi] at hc
    cases hc
  case case4 hi _ _ _ w hw ih =>
    have := Word.lt_stop_of_at? profile buf hi hw
    exact ih fun k hk => h k (by omega)
  case case5 ih => exact ih fun k hk => h k (by omega)
  all_goals rfl

end Prototype

namespace Signature

open Prototype

variable {profile : Profile} {buf : Buffer} {i k : Nat} {s : Signature}

def listSpans (s : Signature) (i : Nat) : List (Nat × Nat) :=
  match s.parameters with
  | [] => []
  | p :: ps => Piece.spans i p.piece (pieces ps)

theorem length_listSpans (s : Signature) (i : Nat) :
    (s.listSpans i).length = s.parameters.length := by
  unfold listSpans
  cases s.parameters
  case nil => rfl
  case cons p ps => simp [Piece.length_spans, pieces]

def delimited (s : Signature) (i : Nat) : Delimited :=
  match s.parameters with
  | [] => ⟨i, [], some (i + 1 + s.inside.size)⟩
  | p :: ps => Piece.delimited i p.piece (pieces ps)

theorem opener_delimited : (s.delimited i).opener = i := by
  unfold delimited
  cases s.parameters <;> rfl

theorem closer_delimited (s : Signature) (i : Nat) :
    (s.delimited i).closer = some (i + s.bodyTokens.length) := by
  unfold delimited bodyTokens
  cases s.parameters
  case nil =>
    simp only [List.length_append, List.length_singleton, Gap.size]
    congr 1
    omega
  case cons p ps =>
    have hl := Piece.closer_add_one (i + 1) p.piece (pieces ps)
    simp only [Piece.delimited]
    congr 1
    omega

theorem stop_delimited (s : Signature) (i : Nat) :
    (s.delimited i).stop buf = i + s.bodyTokens.length := by
  rw [Delimited.stop, closer_delimited, Option.getD_some]

def opener (s : Signature) : Nat :=
  s.head.tokens.length + s.beforeList.size

structure Layout (s : Signature) (buf : Buffer) : Prop where
  head : buf.Holds 0 s.head.tokens
  gap : buf.Holds s.head.tokens.length s.beforeList.tokens
  opener : buf.tokens[s.opener]? = some ⟨.symbol, ['(']⟩
  body : buf.Holds (s.opener + 1) s.bodyTokens
  rest : buf.Holds (s.opener + 1 + s.bodyTokens.length) s.afterList.tokens
  size_eq : buf.size = s.opener + 1 + s.bodyTokens.length + s.afterList.size

theorem layout (s : Signature) : Layout s (Buffer.ofChars s.print) := by
  obtain ⟨h, hsize⟩ := Buffer.holds_ofChars s.scan_print
  rw [tokens, Buffer.holds_append, Buffer.holds_append, Nat.zero_add] at h
  obtain ⟨hhead, hgap, hopen, hrest⟩ := h
  rw [Buffer.holds_append] at hrest
  refine ⟨hhead, hgap, hopen, hrest.1, hrest.2, ?_⟩
  rw [hsize, tokens]
  simp only [opener, List.length_append, List.length_cons, Gap.size]
  omega

namespace Layout

theorem before (h : Layout s buf) :
    buf.Holds 0 (s.head.tokens ++ s.beforeList.tokens) ∧
      ∀ t ∈ s.head.tokens ++ s.beforeList.tokens, t.IsInert := by
  refine ⟨Buffer.holds_append.mpr ⟨h.head, by rw [Nat.zero_add]; exact h.gap⟩, fun t ht => ?_⟩
  rcases List.mem_append.mp ht with ht | ht
  case inl => exact (Declaration.calm ht).inert
  case inr => exact Gap.inert ht

-- A list with parameters is a list of pieces.
theorem encloses (h : Layout s buf) {p : Parameter} {ps : List Parameter}
    (hp : s.parameters = p :: ps) : Piece.Encloses buf s.opener p.piece (pieces ps) where
  before := ⟨_, h.before.1, List.length_append, h.before.2⟩
  opener := h.opener
  body := by
    have hb := h.body
    rwa [bodyTokens, hp] at hb

theorem delimit?_eq (h : Layout s buf) (hc : Skip.Uncommented profile buf) :
    delimit? profile buf = some (s.delimited s.opener) := by
  unfold delimited
  cases hp : s.parameters
  case cons p ps => exact (h.encloses hp).delimit?_eq hc
  case nil =>
    have hb := h.body
    rw [bodyTokens, hp] at hb
    obtain ⟨hinside, hend, _⟩ := Buffer.holds_append.mp hb
    have hlen : (s.head.tokens ++ s.beforeList.tokens).length = s.opener := List.length_append
    have hopen := listOpening?_bracket hc h.before.1 h.before.2
      (by rw [hlen, Nat.zero_add]; exact h.opener)
    rw [hlen, Nat.zero_add] at hopen
    have hbody : listSeparators profile buf ')' (s.opener + 1) =
        ([], some (s.opener + 1 + s.inside.size)) := by
      rw [listSeparators_inert hc hinside fun _ => Gap.inert]
      exact listSeparators_paren hend
    simp only [delimit?, bind, Option.bind, hopen, hbody, pure]

theorem parameters_eq (h : Layout s buf) :
    (s.delimited s.opener).parameters buf = s.listSpans (s.opener + 1) := by
  unfold delimited listSpans
  cases hp : s.parameters
  case cons p ps => exact (h.encloses hp).parameters_eq
  case nil =>
    have hb := h.body
    rw [bodyTokens, hp] at hb
    have hfirst : buf.afterBlanks (s.opener + 1) (s.opener + 1 + s.inside.size) =
        s.opener + 1 + s.inside.size :=
      Gap.afterBlanks_eq (Buffer.holds_append.mp hb).1 (Nat.le_refl _) (.inl rfl)
    have hlast (j : Nat) : buf.beforeBlanks j j = j := by
      cases j <;> simp [Buffer.beforeBlanks, Buffer.retreat]
    simp [Delimited.parameters, Delimited.stop, Delimited.ranges, Delimited.trimmed, hfirst, hlast]

-- No token of a parameter is a colon.
theorem style_eq (h : Layout s buf) (hb : buf.WellFormed) :
    listStyle? profile buf (s.listSpans (s.opener + 1)) =
      if s.parameters.isEmpty then none else some .c := by
  unfold listSpans
  cases hp : s.parameters
  case nil => rfl
  case cons p ps =>
    have hnone : (Piece.spans (s.opener + 1) p.piece (pieces ps)).any
        (fun r => styleOf profile buf r.1 r.2 = .pascal) = false := by
      rw [List.any_eq_false]
      intro r hr
      have hcolon : hasColon profile buf r.2 r.1 = false := hasColon_eq_false hb fun k hk hl => by
        obtain ⟨q, hq, m, hm, ht⟩ := Piece.token_of_mem_spans (h.encloses hp).body hr hk hl
        rw [snd_pieces] at hq
        obtain ⟨q, -, rfl⟩ := List.mem_map.mp hq
        exact (q.calm_of_mem_marked hm).not_colon ht
      simp [styleOf, hcolon]
    have hne : (Piece.spans (s.opener + 1) p.piece (pieces ps)).isEmpty = false := by
      cases ps <;> rfl
    simp [listStyle?, hne, hnone]

def listRoles (s : Signature) (profile : Profile) (buf : Buffer) : Roles :=
  (s.listSpans (s.opener + 1)).foldl (fun roles r => mark profile buf .c roles r.1 r.2)
    ((s.delimited s.opener).mark buf)

theorem size_listRoles (h : Layout s buf) (hb : buf.WellFormed) :
    (listRoles s profile buf).slots.size = buf.size := by
  unfold listRoles listSpans delimited
  cases hp : s.parameters
  case nil => exact Delimited.size_mark _
  case cons p ps => exact (h.encloses hp).size_listRoles hb

-- Outside of its brackets the list is not marked.
theorem get_listRoles (h : Layout s buf) (hb : buf.WellFormed)
    (hk : k < s.opener ∨ s.opener + s.bodyTokens.length < k) :
    (listRoles s profile buf).get k = none := by
  have hcloser := s.closer_delimited s.opener
  unfold listRoles listSpans
  unfold delimited at hcloser ⊢
  cases hp : s.parameters <;> simp only [hp] at hcloser
  case nil =>
    refine Delimited.get_mark ?opener List.not_mem_nil ?closer
    case opener =>
      simp only
      omega
    case closer =>
      rw [hcloser]
      rintro ⟨⟩
      omega
  case cons p ps =>
    refine (h.encloses hp).get_listRoles hb ?_
    rwa [Option.some.inj hcloser]

theorem shows_listRoles (h : Layout s buf) (hb : buf.WellFormed)
    (hc : Skip.Uncommented profile buf) {n : Nat} {q : Parameter}
    (hq : s.parameters[n]? = some q) :
    ∃ r, (s.listSpans (s.opener + 1))[n]? = some r ∧
      r.2 = r.1 + q.declaration.tokens.length ∧ s.opener < r.1 ∧
      Shows buf (listRoles s profile buf) r.1 q.declaration.marked := by
  unfold listRoles listSpans delimited
  cases hp : s.parameters <;> simp only [hp] at hq
  case nil => simp at hq
  case cons p ps =>
    have hshows : ∀ q ∈ p.piece :: (pieces ps).map Prod.snd, q.ShowsIn profile buf .c := by
      intro q hq
      rw [snd_pieces] at hq
      obtain ⟨r, -, rfl⟩ := List.mem_map.mp hq
      exact r.piece_showsIn hb hc
    have hpiece : (p.piece :: (pieces ps).map Prod.snd)[n]? = some q.piece := by
      rw [snd_pieces, List.getElem?_map, hq]
      rfl
    obtain ⟨r, hr, hstop, hlt, -, hmarked⟩ := (h.encloses hp).shows_listRoles hb hshows hpiece
    exact ⟨r, hr, hstop.trans (by rw [← Declaration.length_marked]; rfl), hlt, hmarked⟩

theorem markAround_eq (h : Layout s buf) (roles : Roles) :
    markAround profile buf (s.delimited s.opener) roles =
      markC profile buf roles 0 s.head.tokens.length := by
  have hafter : buf.afterBlanks ((s.delimited s.opener).stop buf + 1) buf.size = buf.size := by
    have := h.size_eq
    have hs : (s.delimited s.opener).stop buf + 1 = s.opener + 1 + s.bodyTokens.length := by
      rw [stop_delimited]
      omega
    rw [hs, Gap.afterBlanks_eq h.rest (by omega) (.inl (by omega))]
    omega
  obtain ⟨t, ht, hp⟩ := s.head.last_plain
  have hpos := List.length_pos_of_mem (List.mem_of_getLast? ht)
  have hlast := Buffer.isBlank_eq_false_of_plain (h.head.last ht) hp
  rw [Nat.zero_add] at hlast
  have hbefore : buf.beforeBlanks 0 (s.delimited s.opener).opener = s.head.tokens.length := by
    rw [opener_delimited]
    exact Gap.beforeBlanks_eq h.gap hpos hlast
  unfold markAround
  simp [hafter, hbefore, hpos]

-- The head ends at blanks or at the bracket.
theorem isEnd_head (h : Layout s buf) : IsEnd buf s.head.tokens.length := by
  by_cases hg : s.beforeList.size = 0
  case neg => exact isEnd_of_isBlank (Gap.isBlank_of_holds h.gap hg).2
  case pos =>
    have he : s.opener = s.head.tokens.length := by
      rw [Signature.opener, hg, Nat.add_zero]
    have hopen := h.opener
    rw [he] at hopen
    exact isEnd_of_isChar (Buffer.isChar_iff.mpr ⟨_, hopen, rfl, rfl⟩) (by decide)

end Layout

def reading (s : Signature) (profile : Profile) (buf : Buffer) : Prototype where
  buffer := buf
  roles := markC profile buf (Layout.listRoles s profile buf) 0 s.head.tokens.length
  style := if s.parameters.isEmpty then none else some .c
  parameters := s.listSpans (s.opener + 1)
  list := some (s.opener, s.opener + s.bodyTokens.length)

theorem ofText_eq (s : Signature) (h : Skip.Uncommented profile (Buffer.ofChars s.print)) :
    ofText profile s.print = s.reading profile (Buffer.ofChars s.print) := by
  have hl := s.layout
  have hb := Buffer.wellFormed_ofChars s.print
  have hstyle : (if s.parameters.isEmpty then none else some Style.c).getD .c = .c := by
    split <;> rfl
  simp only [ofText, hl.delimit?_eq h, ofDelimited, hl.parameters_eq, hl.style_eq hb, hstyle,
    hl.markAround_eq, stop_delimited, opener_delimited, reading, Layout.listRoles]

namespace Layout

theorem sameOutside_reading (h : Layout s buf) (hb : buf.WellFormed) :
    Roles.SameOutside profile buf 0 s.head.tokens.length (listRoles s profile buf)
      (s.reading profile buf).roles :=
  sameOutside_markC profile hb h.isEnd_head

theorem get_reading (h : Layout s buf) (hb : buf.WellFormed) (hhead : s.head.tokens.length ≤ k)
    (hlist : k < s.opener ∨ s.opener + s.bodyTokens.length < k) :
    (s.reading profile buf).roles.get k = none := by
  rw [(h.sameOutside_reading hb).get_eq k (.inr hhead), h.get_listRoles hb hlist]

theorem appears_head (h : Layout s buf) (hb : buf.WellFormed)
    (hc : Skip.Uncommented profile buf) :
    Declaration.Appears (s.reading profile buf) s.head s.beforeList 0 s.opener where
  shows := by
    refine Shows.append.mpr ⟨?_, ?_⟩
    · refine Declaration.markC_shows profile hb hc (h.size_listRoles hb) h.isEnd_head h.head
        (Nat.zero_add _).symm fun k _ hl => h.get_listRoles hb (.inl ?_)
      rw [Signature.opener]
      omega
    · rw [Nat.zero_add, Declaration.length_marked]
      exact .of_holds h.gap fun k hk hl => h.get_reading hb hk (.inl hl)
  stop_eq := by
    rw [List.length_append, Declaration.length_marked, Declaration.length_tagged, Nat.zero_add]
    rfl

theorem appears_parameter (h : Layout s buf) (hb : buf.WellFormed)
    (hc : Skip.Uncommented profile buf) {n : Nat} {q : Parameter}
    (hq : s.parameters[n]? = some q) :
    ∃ r, (s.reading profile buf).parameters[n]? = some r ∧
      Declaration.Appears (s.reading profile buf) q.declaration ⟨[], by simp⟩ r.1 r.2 := by
  have ⟨r, hr, hstop, hlt, hshows⟩ := h.shows_listRoles hb hc hq
  refine ⟨r, hr, ?shows, ?stop⟩
  case shows =>
    simp only [Gap.tokens, Declaration.tagged, ↓reduceIte, List.map_nil, List.append_nil]
    refine hshows.congr fun k hk _ => (h.sameOutside_reading hb).get_eq k (.inr ?_)
    simp only [Signature.opener] at hlt
    omega
  case stop => simpa [Gap.tokens, Declaration.tagged, Declaration.length_marked] using hstop

-- Only blanks follow the list, so that the type stands before the name.
theorem no_type_after (h : Layout s buf) (hb : buf.WellFormed) :
    (s.reading profile buf).typeText? (s.opener + s.bodyTokens.length + 1)
      (s.reading profile buf).buffer.size = none := by
  have hshows : Shows buf (s.reading profile buf).roles (s.opener + s.bodyTokens.length + 1)
      (Declaration.tagged none s.afterList.tokens) := by
    have hrest := h.rest
    rw [show s.opener + 1 + s.bodyTokens.length = s.opener + s.bodyTokens.length + 1 by omega]
      at hrest
    refine .of_holds hrest fun k hk _ => h.get_reading hb ?_ (.inr hk)
    simp only [Signature.opener] at hk
    omega
  have hsize : buf.size = s.opener + s.bodyTokens.length + 1 +
      (Declaration.tagged none s.afterList.tokens).length := by
    rw [h.size_eq, Declaration.length_tagged, Gap.size]
    omega
  have hmarked : (s.reading profile buf).marked (s.opener + s.bodyTokens.length + 1) buf.size =
      Declaration.tagged none s.afterList.tokens := by
    rw [hsize]
    exact Shows.marked_eq hshows
  change typeText? _ _ buf.size = none
  rw [typeText?, hmarked, Declaration.collectType_foreign]
  · rfl
  · intro m hm
    simp [Declaration.IsForeign, Declaration.role_of_mem_tagged hm]

end Layout

-- What is printed is read back: the name, the type before it, and each parameter with its name, its
-- type and its default value.
theorem ofText_print (profile : Profile) (s : Signature)
    (h : Skip.Uncommented profile (Buffer.ofChars s.print)) :
    let p := ofText profile s.print
    p.parameters.length = s.parameters.length ∧
    p.style = (if s.parameters = [] then none else some .c) ∧
    p.name? = some s.name.chars ∧
    p.returnType? = Declaration.typeOf s.words ∧
    ∀ k q, s.parameters[k]? = some q →
      p.parameterName? k = some q.declaration.name.chars ∧
      p.parameterType? k = Declaration.typeOf q.declaration.words ∧
      p.parameterDefault? k = q.declaration.default?.map (·.2.2.chars) := by
  have hl := s.layout
  have hb := Buffer.wellFormed_ofChars s.print
  have hhead := hl.appears_head hb h
  dsimp only
  rw [s.ofText_eq h]
  refine ⟨?count, ?style, hhead.name, ?type, fun k q hq => ?parameter⟩
  case count => exact s.length_listSpans _
  case style => simp [reading]
  case type =>
    change (typeText? _ _ _).or _ = _
    rw [hl.no_type_after hb, Option.none_or]
    exact hhead.type
  case parameter =>
    have ⟨r, hr, happ⟩ := hl.appears_parameter hb h hq
    exact happ.parameter hr

-- `unsigned char put(int file, char c=x )`
def put : Signature where
  words := [(⟨"unsigned".toList, by decide, by decide, by decide⟩, ⟨⟨[' '], by decide⟩, by decide⟩),
    (⟨"char".toList, by decide, by decide, by decide⟩, ⟨⟨[' ', '\t'], by decide⟩, by decide⟩)]
  name := ⟨"put".toList, by decide, by decide, by decide⟩
  beforeList := ⟨[], by decide⟩
  parameters := [
    ⟨⟨[], by decide⟩,
      ⟨[(⟨"int".toList, by decide, by decide, by decide⟩, ⟨⟨[' '], by decide⟩, by decide⟩)],
        ⟨"file".toList, by decide, by decide, by decide⟩, none⟩, ⟨[], by decide⟩⟩,
    ⟨⟨[' '], by decide⟩,
      ⟨[(⟨"char".toList, by decide, by decide, by decide⟩, ⟨⟨[' '], by decide⟩, by decide⟩)],
        ⟨"c".toList, by decide, by decide, by decide⟩,
        some (⟨[], by decide⟩, ⟨[], by decide⟩, ⟨"x".toList, by decide, by decide, by decide⟩)⟩,
      ⟨[' '], by decide⟩⟩]
  inside := ⟨[], by decide⟩
  afterList := ⟨[], by decide⟩

theorem ofText_print_put :
    let p := ofText .builtinC "unsigned char \tput(int file, char c=x )".toList
    p.parameters.length = 2 ∧ p.style = some .c ∧ p.name? = some "put".toList ∧
      p.returnType? = some "unsigned char".toList ∧ p.parameterName? 1 = some "c".toList ∧
      p.parameterType? 1 = some "char".toList ∧ p.parameterDefault? 1 = some "x".toList := by
  have hprint : put.print = "unsigned char \tput(int file, char c=x )".toList := by decide
  have hslash (i : Nat) : (Buffer.ofChars put.print).isChar i '/' = false := by
    rw [Bool.eq_false_iff]
    intro h
    exact absurd (Buffer.mem_of_isChar h) (by decide)
  have hb := Buffer.wellFormed_ofChars put.print
  have hc : Skip.Uncommented .builtinC (Buffer.ofChars put.print) := by
    refine ⟨fun i s hs => ?_, fun i s hs => ?_⟩ <;>
      obtain rfl := List.mem_singleton.mp hs <;>
      rw [Buffer.matchesAt_symbols hb (by decide)] <;>
      simp [Buffer.spells, hslash]
  obtain ⟨hlen, hstyle, hname, htype, hparam⟩ := ofText_print .builtinC put hc
  rw [← hprint]
  have hparam := hparam 1 _ rfl
  exact ⟨hlen, hstyle, hname, htype, hparam⟩

end Signature
end SourceDocs

import SourceDocs.Proofs.Excerpt.Declaration
import SourceDocs.Proofs.ParameterList
import SourceDocs.Profile.Builtin

namespace SourceDocs.Prototype

open Roles

variable {profile : Profile} {buf : Buffer} {d : Delimited} {closer : Char} {roles : Roles}
  {k s e : Nat}

theorem exists_markAround (profile : Profile) (hb : buf.WellFormed) (ho : IsEnd buf d.opener)
    (roles : Roles) :
    ∃ r, SameOutside profile buf (d.stop buf + 1) buf.size roles r ∧
      SameOutside profile buf 0 d.opener r (markAround profile buf d roles) := by
  have hend := isEnd_beforeBlanks ho 0
  have hle := buf.beforeBlanks_le 0 d.opener
  refine exists_of_markAround profile buf d (SameOutside profile buf (d.stop buf + 1) buf.size)
    (SameOutside profile buf 0 d.opener) (.refl _ _) (.refl _ _) (fun r i hi _ => ?type)
    (fun r => ?name) (fun r => ?head) roles
  case type =>
    exact (sameOutside_markModifiersAndType profile hb (isEnd_size buf).within).mono hi
      (Nat.le_refl _)
  case name =>
    exact (sameOutside_markModifiersAndName profile hb hend.within).mono (Nat.le_refl _) hle
  case head => exact (sameOutside_markC profile hb hend).mono (Nat.le_refl _) hle

theorem sameOutside_marks (hb : buf.WellFormed) {style : Style} {rs : List (Nat × Nat)} {i j : Nat}
    (h : ∀ r ∈ rs, IsEnd buf r.2 ∧ i ≤ r.1 ∧ r.2 ≤ j) (roles : Roles) :
    SameOutside profile buf i j roles
      (rs.foldl (fun roles r => mark profile buf style roles r.1 r.2) roles) :=
  .foldl (fun _ r hr => (sameOutside_mark profile hb (h r hr).1 style).mono (h r hr).2.1
    (h r hr).2.2) roles

theorem no_end_marks (hb : buf.WellFormed) {style : Style} {rs : List (Nat × Nat)}
    (hrs : ∀ r ∈ rs, IsEnd buf r.2)
    (h : (rs.foldl (fun roles r => mark profile buf style roles r.1 r.2) roles).get k =
      some .endOfParameters) : roles.get k = some .endOfParameters := by
  induction rs generalizing roles
  case nil => exact h
  case cons r rs hi =>
    have h := hi (fun r hr => hrs r (.tail _ hr)) h
    exact (sameOutside_mark profile hb (hrs r (.head _)) style).no_end h

theorem get_foldl_set_ne {is : List Nat} {x : Option Role} {role : Option Role} (hn : role ≠ x)
    (h : (is.foldl (fun r i => r.set i role) roles).get k = x) : roles.get k = x := by
  induction is generalizing roles
  case nil => exact h
  case cons i is hi =>
    have h := hi h
    rw [get_set] at h
    split at h
    case isTrue => exact absurd h hn
    case isFalse => exact h

-- An end is marked only where a list is closed.
theorem closer_of_end (hb : buf.WellFormed) (hl : IsList profile buf closer d)
    (h : (ofDelimited profile buf d).roles.get k = some .endOfParameters) :
    ∃ c, d.closer = some c := by
  obtain ⟨r, hafter, hbefore⟩ := exists_markAround profile hb hl.isEnd_opener
    ((d.parameters buf).foldl (fun roles r => mark profile buf
      ((listStyle? profile buf (d.parameters buf)).getD .c) roles r.1 r.2) (d.mark buf))
  have hmark := no_end_marks hb (fun r hr => hl.isEnd_parameter hr)
    (hafter.no_end (hbefore.no_end h))
  cases hc : d.closer
  case some c => exact ⟨c, rfl⟩
  case none =>
    unfold Delimited.mark at hmark
    simp only [hc] at hmark
    have hset := get_foldl_set_ne (by decide) hmark
    rw [get_set, get_empty] at hset
    split at hset <;> cases hset

-- What stands in a parameter is marked with it only.
theorem exists_marked {c : Nat} (hb : buf.WellFormed) (hl : IsList profile buf closer d)
    (hc : d.closer = some c) (hr : (s, e) ∈ d.parameters buf) :
    ∃ roles, roles.slots.size = buf.size ∧ (∀ k, s ≤ k → k < e → roles.get k = none) ∧
      ∀ k, s ≤ k → k < e → (ofDelimited profile buf d).roles.get k =
        (mark profile buf ((listStyle? profile buf (d.parameters buf)).getD .c) roles s e).get
          k := by
  obtain ⟨part, hpart, -, htrimmed⟩ := hl.exists_part hc hr
  have hord := hl.ordered hc
  have hstart := hord.start_le part hpart
  have hstop := hord.le_stop part hpart
  have hstart' : part.1 ≤ s := htrimmed.start_le
  have hstop' : e ≤ part.2 := htrimmed.le_stop
  have hends (r : Nat × Nat) (hr : r ∈ d.parameters buf) := hl.isEnd_parameter hr
  have hpairs := hl.pairwise_parameters hc
  have hlast : d.stop buf = c := by rw [Delimited.stop, hc, Option.getD_some]
  unfold ofDelimited
  dsimp only
  generalize (listStyle? profile buf (d.parameters buf)).getD .c = style
  -- The parameters before it end before it starts, and those after it start where it has ended.
  obtain ⟨before, after, hsplit⟩ := List.append_of_mem hr
  rw [hsplit] at hends hpairs ⊢
  obtain ⟨_, hafter, hbefore⟩ := List.pairwise_append.mp hpairs
  have hfirst : SameOutside profile buf 0 s (d.mark buf)
      (before.foldl (fun roles r => mark profile buf style roles r.1 r.2) (d.mark buf)) := by
    refine sameOutside_marks hb (fun r hr => ⟨hends r (by simp [hr]), Nat.zero_le _, ?_⟩) _
    exact Nat.le_of_lt (hbefore r hr (s, e) (.head _))
  rw [List.foldl_append, List.foldl_cons]
  refine ⟨_, hfirst.size_eq.trans d.size_mark, fun k hk hk' => ?unmarked, fun k hk hk' => ?eq⟩
  case unmarked =>
    rw [hfirst.get_eq k (.inr hk)]
    refine Delimited.get_mark (by omega) (fun hs => ?separator) (fun hk => ?closer)
    case separator =>
      have := hord.separators part hpart k hs
      omega
    case closer =>
      cases hc.symm.trans hk
      omega
  case eq =>
    obtain ⟨r, hr, hr'⟩ := exists_markAround profile hb hl.isEnd_opener
      (after.foldl (fun roles r => mark profile buf style roles r.1 r.2) (mark profile buf style
        (before.foldl (fun roles r => mark profile buf style roles r.1 r.2) (d.mark buf)) s e))
    rw [hr'.get_eq k (.inr (by omega)), hr.get_eq k (.inl (by omega))]
    refine (sameOutside_marks (i := e) (j := c) hb (fun r hr => ?_) _).get_eq k (.inl hk')
    have hle := (List.pairwise_cons.mp hafter).1 r hr
    obtain ⟨part, hpart, -, htrimmed⟩ := hl.exists_part hc (r := r) (by simp [hsplit, hr])
    exact ⟨hends r (by simp [hr]), Nat.le_of_lt hle,
      htrimmed.le_stop.trans (hord.le_stop part hpart)⟩

-- What starts in a section of the list ends in it, and blanks at its ends are left out.
theorem sealed_parameter {text : List Char} {c : Nat} (hl : IsList profile (.ofChars text) closer d)
    (hp : profile.Separate) (hc : d.closer = some c) (hr : (s, e) ∈ d.parameters (.ofChars text))
    {sub : Buffer} (hsub : sub = .ofChars ((Buffer.ofChars text).slice s e)) :
    Sealed profile (.ofChars text) sub s s sub.size := by
  have hb := Buffer.wellFormed_ofChars text
  obtain ⟨part, hpart, hrange, htrimmed⟩ := hl.exists_part hc hr
  have hsection := hl.section_of_mem hc hpart
  have hender : ∃ c ∈ ",;)]\x7d".toList, (Buffer.ofChars text).isChar part.2 c = true := by
    rcases hsection.ender with hs | hs
    case inl =>
      rcases Bool.or_eq_true .. ▸ hs with hs | hs
      case inl => exact ⟨',', by decide, hs⟩
      case inr => exact ⟨';', by decide, hs⟩
    case inr =>
      have hmem : ∀ c ∈ ")]\x7d".toList, c ∈ ",;)]\x7d".toList := by decide
      exact ⟨closer, hmem _ hl.closer_mem, hs⟩
  obtain ⟨b, hbm, hbc⟩ := hender
  have hstart : s = (Buffer.ofChars text).afterBlanks part.1 part.2 := congrArg Prod.fst hrange
  have hstop : e ≤ part.2 := htrimmed.le_stop
  have ⟨(hse : s ≤ e), (hes : e < _)⟩ := hl.bounds_of_mem_parameters hc hr
  have hsize : s + sub.size = e := by
    rw [hsub, Buffer.size_ofChars_slice text s (Nat.le_of_lt hes)]
    omega
  refine ⟨⟨fun k hk => ?tokens_eq, hb, ?behind⟩, hp, Nat.le_refl _, fun p hr hpe => ?ends⟩
  case tokens_eq =>
    rw [hsub, Buffer.tokens_ofChars_slice, Array.getElem?_extract, if_pos]
    change k < min e (Buffer.ofChars text).size - s
    omega
  case behind =>
    rw [hsize]
    rcases Nat.lt_or_eq_of_le hstop with hlt | rfl
    case inl => exact .inl (htrimmed.behind e (Nat.le_refl _) hlt)
    case inr => exact .inr ⟨b, hbm, hbc⟩
  case ends =>
    rw [hsize] at hpe ⊢
    have hreach : Skip.Reach profile (.ofChars text) part.1 p := by
      refine .trans ?_ hr
      rw [hstart]
      exact .afterBlanks hb hp _
    exact (hsection.ends hb hp hreach (by omega)).of_blanks hb hp
      (Buffer.lt_size_of_isChar _ hbc) (Buffer.not_isLineBreak_of_isChar hbc) htrimmed.behind

-- The text of a parameter has no blanks at its ends.
theorem trimmed_excerpt {sub : Buffer} {c : Nat} (hl : IsList profile buf closer d)
    (hc : d.closer = some c) (hr : (s, e) ∈ d.parameters buf) (h : Excerpt buf sub s)
    (hsize : sub.size = e - s) : Delimited.trimmed sub 0 sub.size = (0, sub.size) := by
  obtain ⟨part, -, -, htrimmed⟩ := hl.exists_part hc hr
  have hfirst : s < e → buf.isBlank s = false := htrimmed.first
  have hlast : s < e → buf.isBlank (e - 1) = false := htrimmed.last
  unfold Delimited.trimmed
  cases hn : sub.size
  case zero =>
    rw [Buffer.afterBlanks, Buffer.seek_end (Nat.le_refl _)]
    rfl
  case succ n =>
    have hblank₀ := h.isBlank_eq (k := 0) (by omega)
    have hblank₁ := h.isBlank_eq (k := n) (by omega)
    rw [Nat.add_zero, hfirst (by omega)] at hblank₀
    rw [show s + n = e - 1 by omega, hlast (by omega)] at hblank₁
    have hstop : sub.beforeBlanks 0 (n + 1) = n + 1 := by
      unfold Buffer.beforeBlanks
      rw [Buffer.retreat, if_neg (by simp [hblank₁])]
    rw [Buffer.afterBlanks, Buffer.seek_hit (by omega) (by simp [hblank₀])]
    exact congrArg (0, ·) hstop

theorem exists_ofDeclaration_eq (profile : Profile) {cs : List Char} {sub : Buffer}
    (hsub : sub = .ofChars cs) (h : Delimited.trimmed sub 0 sub.size = (0, sub.size)) :
    ∃ style, ofDeclaration profile cs =
      ⟨sub, mark profile sub style (.empty sub) 0 sub.size, some style, [(0, sub.size)], none⟩ := by
  subst hsub
  unfold ofDeclaration
  simp only [h]
  exact ⟨_, rfl⟩

-- In the list no bracket gets a role of a suffix if its block ends behind the parameter.
theorem roles_eq_iff {text : List Char} {c : Nat} (hl : IsList profile (.ofChars text) closer d)
    (hp : profile.Separate) (hc : d.closer = some c) (hr : (s, e) ∈ d.parameters (.ofChars text))
    {sub : Buffer} (hsub : sub = .ofChars ((Buffer.ofChars text).slice s e)) {style : Style}
    (hstyle : listStyle? profile (.ofChars text) (d.parameters (.ofChars text)) = some style) :
    (∀ k < e - s, (ofDelimited profile (.ofChars text) d).roles.get (s + k) =
      (mark profile sub style (.empty sub) 0 sub.size).get k) ↔
    ∀ k < e - s, ((mark profile sub style (.empty sub) 0 sub.size).get k).any
      Role.isSuffixBracket = true →
        ∀ m ∈ Skip.block? profile (.ofChars text) true (s + k), m ≤ e := by
  have hb := Buffer.wellFormed_ofChars text
  have hsealed := sealed_parameter hl hp hc hr hsub
  have ⟨(hse : s ≤ e), (hes : e < _)⟩ := hl.bounds_of_mem_parameters hc hr
  have hsize : sub.size = e - s := hsub ▸ Buffer.size_ofChars_slice text s (Nat.le_of_lt hes)
  obtain ⟨roles, hslots, hnone, hroles⟩ := exists_marked hb hl hc hr
  rw [hstyle, Option.getD_some] at hroles
  constructor
  case mp =>
    -- In the list a bracket is marked only if its block ends in the parameter.
    intro heq k hk hsuffix m hm
    rw [← heq k hk, hroles _ (by omega) (by omega)] at hsuffix
    have hmark : SameOutside profile (.ofChars text) s e roles _ :=
      sameOutside_mark profile hb (hl.isEnd_parameter hr) style
    rcases hmark.admits (s + k) with h | h
    case inl => simp [h, hnone _ (Nat.le_add_right s k) (by omega)] at hsuffix
    case inr => exact h.2 hsuffix m hm
  case mpr =>
    intro hfit k hk
    obtain rfl : e = s + sub.size := by omega
    have hempty : Agree s sub.size roles (.empty sub) := by
      refine ⟨by omega, by simp [Roles.empty], fun m hm => ?_⟩
      rw [get_empty, hnone _ (by omega) (by omega)]
    rw [hroles _ (by omega) (by omega)]
    refine (agree_mark hsealed hempty (fun _ => get_empty ..) style ?_).get_eq k (by omega)
    exact fun k _ hk => hfit k (by omega)

theorem getElem?_marked (p : Prototype) (i j : Nat) :
    (p.marked i j)[k]? = if k < min j p.buffer.size - i then
      p.buffer.tokens[i + k]?.map fun t => (t, p.roles.get (i + k)) else none := by
  simp only [marked, List.getElem?_map, List.getElem?_zipIdx, Array.getElem?_toList,
    Array.getElem?_extract, Option.map_map, Function.comp_def, Nat.zero_add]
  exact apply_ite ..

section Reading

variable {p q : Prototype} {o n : Nat} (hp : o + n ≤ p.buffer.size) (hq : q.buffer.size = n)
  (ht : ∀ k < n, q.buffer.tokens[k]? = p.buffer.tokens[o + k]?)

include hp hq ht

theorem marked_eq (hr : ∀ k < n, p.roles.get (o + k) = q.roles.get k) (i : Nat) :
    p.marked (o + i) (o + n) = q.marked i n := by
  refine List.ext_getElem? fun k => ?_
  rw [getElem?_marked, getElem?_marked, Nat.min_eq_left hp, hq, Nat.min_self,
    Nat.add_sub_add_left, Nat.add_assoc]
  split
  case isFalse => rfl
  case isTrue hk => rw [ht _ (by omega), hr _ (by omega)]

theorem marked_eq_tokens_iff :
    p.marked o (o + n) = q.tokens ↔ ∀ k < n, p.roles.get (o + k) = q.roles.get k := by
  rw [tokens, hq]
  constructor
  case mpr => exact fun hr => marked_eq hp hq ht hr 0
  case mp =>
    intro h k hk
    have hget := congrArg (·[k]?) h
    have hlt : k < q.buffer.tokens.size := hk.trans_eq hq.symm
    simp only [getElem?_marked, Nat.min_eq_left hp, hq, Nat.min_self, Nat.add_sub_cancel_left,
      Nat.sub_zero, if_pos hk, Nat.zero_add, ← ht k hk, Array.getElem?_eq_getElem hlt,
      Option.map_some, Option.some.injEq, Prod.mk.injEq, true_and] at hget
    exact hget

theorem parameter_eq (hr : ∀ k < n, p.roles.get (o + k) = q.roles.get k) {i : Nat}
    (hpi : p.parameters[i]? = some (o, o + n)) (hqi : q.parameters[0]? = some (0, n)) :
    p.parameterName? i = q.parameterName? 0 ∧ p.parameterType? i = q.parameterType? 0 ∧
      p.parameterDefault? i = q.parameterDefault? 0 := by
  have hmarked := marked_eq hp hq ht hr
  have hcolon : Buffer.seek (p.roles.get · = some .nameTypeSeparator) o (o + n) =
      o + Buffer.seek (q.roles.get · = some .nameTypeSeparator) 0 n :=
    Excerpt.seek_eq (k := 0) fun m _ hm => by rw [hr m hm]
  have hwhole : p.marked o (o + n) = q.marked 0 n := hmarked 0
  refine ⟨?name, ?type, ?default⟩
  case name =>
    simp only [parameterName?, hpi, hqi, bind, Option.bind_some, roleText?, hwhole]
  case type =>
    have hbehind (c : Nat) :
        (if o + c < o + n then o + c + 1 else o) = o + if c < n then c + 1 else 0 := by
      split <;> split <;> omega
    simp only [parameterType?, hpi, hqi, bind, Option.bind_some, typeText?, hcolon, hbehind,
      hmarked]
  case default =>
    simp only [parameterDefault?, hpi, hqi, bind, Option.bind_some, roleText?, hwhole]

end Reading

-- In a prototype with a closed list, a parameter whose text alone has the style of the list has the
-- same roles in both exactly if no bracket that is marked behind a name or a type there opens a
-- block that ends behind the parameter in the prototype. It then has the same name, type and
-- default value.
theorem parameter_marked_alone_iff (profile : Profile) (text : List Char) {i : Nat}
    (hp : profile.Separate)
    (hclosed : (ofText profile text).roles.get k = some .endOfParameters)
    (hi : (ofText profile text).parameters[i]? = some (s, e))
    (hstyle : (ofDeclaration profile ((Buffer.ofChars text).slice s e)).style =
      (ofText profile text).style) :
    ((ofText profile text).marked s e =
        (ofDeclaration profile ((Buffer.ofChars text).slice s e)).tokens ↔
      ∀ k < e - s, ((ofDeclaration profile ((Buffer.ofChars text).slice s e)).roles.get k).any
        Role.isSuffixBracket = true →
          ∀ m ∈ Skip.block? profile (.ofChars text) true (s + k), m ≤ e) ∧
    ((ofText profile text).marked s e =
        (ofDeclaration profile ((Buffer.ofChars text).slice s e)).tokens →
      (ofText profile text).parameterName? i =
          (ofDeclaration profile ((Buffer.ofChars text).slice s e)).parameterName? 0 ∧
        (ofText profile text).parameterType? i =
          (ofDeclaration profile ((Buffer.ofChars text).slice s e)).parameterType? 0 ∧
        (ofText profile text).parameterDefault? i =
          (ofDeclaration profile ((Buffer.ofChars text).slice s e)).parameterDefault? 0) := by
  have hb := Buffer.wellFormed_ofChars text
  cases hd : delimit? profile (.ofChars text)
  case none =>
    simp [ofText, hd] at hi
  case some d =>
    have htext : ofText profile text = ofDelimited profile (.ofChars text) d := by
      rw [ofText]
      simp only [hd]
    obtain ⟨closer, hl⟩ := isList_of_delimit? hd
    rw [htext] at hclosed hi hstyle ⊢
    obtain ⟨c, hc⟩ := closer_of_end hb hl hclosed
    have hr : (s, e) ∈ d.parameters (.ofChars text) := List.mem_of_getElem? hi
    obtain ⟨sub, hsub⟩ : ∃ sub : Buffer, sub = .ofChars ((Buffer.ofChars text).slice s e) := ⟨_, rfl⟩
    have hsealed := sealed_parameter hl hp hc hr hsub
    have ⟨(hse : s ≤ e), (hes : e < _)⟩ := hl.bounds_of_mem_parameters hc hr
    have hsize : sub.size = e - s := hsub ▸ Buffer.size_ofChars_slice text s (Nat.le_of_lt hes)
    obtain ⟨style, halone⟩ := exists_ofDeclaration_eq profile hsub
      (trimmed_excerpt hl hc hr hsealed.toExcerpt hsize)
    rw [halone] at hstyle ⊢
    have hroles := roles_eq_iff hl hp hc hr hsub hstyle.symm
    obtain rfl : e = s + sub.size := by omega
    rw [Nat.add_sub_cancel_left] at hroles ⊢
    have hmarked := marked_eq_tokens_iff (p := ofDelimited profile (.ofChars text) d)
      (q := ⟨sub, mark profile sub style (.empty sub) 0 sub.size, some style, [(0, sub.size)], none⟩)
      (Nat.le_of_lt hes) rfl hsealed.tokens_eq
    refine ⟨hmarked.trans hroles, fun h => ?_⟩
    exact parameter_eq (Nat.le_of_lt hes) rfl hsealed.tokens_eq (hmarked.mp h) hi rfl

theorem parameter_marked_alone_index :
    Profile.builtinC.Separate ∧
    (ofText .builtinC "f(x[2], y = (a))".toList).roles.get 15 = some .endOfParameters ∧
    (ofText .builtinC "f(x[2], y = (a))".toList).parameters[0]? = some (2, 6) ∧
    (ofText .builtinC "f(x[2], y = (a))".toList).marked 2 6 =
      (ofDeclaration .builtinC "x[2]".toList).tokens ∧
    (ofText .builtinC "f(x[2], y = (a))".toList).parameterName? 0 =
      (ofDeclaration .builtinC "x[2]".toList).parameterName? 0 := by
  have hsep : Profile.builtinC.Separate := by decide
  have hclosed :
      (ofText .builtinC "f(x[2], y = (a))".toList).roles.get 15 = some .endOfParameters := by
    decide +kernel
  have hi : (ofText .builtinC "f(x[2], y = (a))".toList).parameters[0]? = some (2, 6) := by
    decide +kernel
  have hslice : (Buffer.ofChars "f(x[2], y = (a))".toList).slice 2 6 = "x[2]".toList := by
    decide +kernel
  have hstyle : (ofDeclaration .builtinC
      ((Buffer.ofChars "f(x[2], y = (a))".toList).slice 2 6)).style =
        (ofText .builtinC "f(x[2], y = (a))".toList).style := by
    decide +kernel
  have ⟨hmarked, hread⟩ := parameter_marked_alone_iff .builtinC _ hsep hclosed hi hstyle
  rw [hslice] at hmarked hread
  -- The block of the index is the only one, and it ends with the parameter.
  have hends := hmarked.mpr (by decide +kernel)
  exact ⟨hsep, hclosed, hi, hends, (hread hends).1⟩

-- The bracket stands in a string, which the marking does not see: alone the block that it opens
-- ends with the text, and in the prototype it would end behind the list.
theorem bracket_in_string_not_marked_alone :
    Profile.builtinC.Separate ∧
    (ofText .builtinC "f(*(\"a<\"), b)".toList).roles.get 12 = some .endOfParameters ∧
    (ofText .builtinC "f(*(\"a<\"), b)".toList).parameters[0]? = some (2, 9) ∧
    (Buffer.ofChars "f(*(\"a<\"), b)".toList).slice 2 9 = "*(\"a<\")".toList ∧
    (ofDeclaration .builtinC "*(\"a<\")".toList).style =
      (ofText .builtinC "f(*(\"a<\"), b)".toList).style ∧
    (ofText .builtinC "f(*(\"a<\"), b)".toList).roles.get 6 = some .nameSuffix ∧
    (ofDeclaration .builtinC "*(\"a<\")".toList).roles.get 4 = some .openingNameSuffix ∧
    (ofText .builtinC "f(*(\"a<\"), b)".toList).marked 2 9 ≠
      (ofDeclaration .builtinC "*(\"a<\")".toList).tokens := by
  decide +kernel

end SourceDocs.Prototype

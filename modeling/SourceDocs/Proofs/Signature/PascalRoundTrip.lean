import SourceDocs.Profile.Builtin
import SourceDocs.Proofs.Signature.Pascal

namespace SourceDocs.Pascal

open Prototype Declaration Phrase

structure Signature where
  head : Phrase
  beforeList : Gap
  first : Parameter
  others : List (Separator × Parameter)
  beforeColon : Gap
  afterColon : Gap
  result : Phrase
  after : Gap
  -- Without any colon the list is in C style.
  typed : ∃ q ∈ first :: others.map Prod.snd, q.type? ≠ none

def printList : Parameter → List (Separator × Parameter) → List Char
  | p, [] => p.print ++ [')']
  | p, (s, q) :: qs => p.print ++ s.char :: printList q qs

namespace Parameter

open Token

variable (q : Parameter)

-- A parameter is cut apart from the separator or the bracket behind it.
theorem scan_append {c : Char} {rest : List Char} (hc : Kind.ofChar c = .symbol) :
    scan (q.print ++ c :: rest) = q.piece.tokens ++ scan (c :: rest) := by
  have ht : ∀ d ∈ (c :: rest).head?, Kind.ofChar d ≠ .text := by
    rintro d ⟨rfl⟩
    simp [hc]
  have hb : ∀ d ∈ (c :: rest).head?, Kind.ofChar d ≠ .blank := by
    rintro d ⟨rfl⟩
    simp [hc]
  have hafter := q.after.head_print ht
  have hcore : q.piece.core.map Prod.fst = q.names.tokens ++ (typeMarked q.type?).map Prod.fst := by
    simp only [piece, core, List.map_append, Phrase.fst_marked]
  have htype : scan (printType q.type? ++ (q.after.chars ++ c :: rest)) =
      (typeMarked q.type?).map Prod.fst ++ scan (q.after.chars ++ c :: rest) ∧
        ∀ d ∈ (printType q.type? ++ (q.after.chars ++ c :: rest)).head?, Kind.ofChar d ≠ .text := by
    rcases q.type? with _ | ⟨before, after, type⟩
    case none => exact ⟨rfl, hafter⟩
    case some =>
      have hcolon : ∀ d ∈ (':' :: (after.chars ++ (type.print ++ (q.after.chars ++ c :: rest)))).head?,
          Kind.ofChar d ≠ .text ∧ Kind.ofChar d ≠ .blank := by
        rintro d ⟨rfl⟩
        decide
      simp only [printType, typeMarked, List.append_assoc, List.cons_append]
      refine ⟨?_, before.head_print fun d hd => (hcolon d hd).1⟩
      rw [before.scan_append fun d hd => (hcolon d hd).2, scan_symbol (by decide),
        after.scan_append (type.head_print _), type.scan_print_append hafter]
      simp [tagged, Function.comp_def, Phrase.fst_marked]
  simp only [print, Piece.tokens, hcore, List.append_assoc]
  rw [q.before.scan_append (q.names.head_print _), q.names.scan_print_append htype.2, htype.1,
    q.after.scan_append hb]
  rfl

-- The type behind the colon. The modifiers are read in its place where there is no colon.
def typeRead : Option (List Char) :=
  match q.type? with
  | some (_, _, type) => some type.text
  | none =>
    if q.names.words = [] then none else some (PlainWord.joined (q.names.words.map Prod.fst))

variable {q : Parameter} {p : Prototype} {k start : Nat}

theorem role_of_mem_typeMarked {type? : Option (Gap × Gap × Phrase)} {m : Marked}
    (hm : m ∈ typeMarked type?) : m.2 ≠ some .name := by
  rcases type? with _ | ⟨before, after, type⟩
  case none => simp [typeMarked] at hm
  case some =>
    simp only [typeMarked, List.mem_append, List.mem_cons] at hm
    rcases hm with hm | rfl | hm | hm
    · simp [role_of_mem_tagged hm]
    · simp
    · simp [role_of_mem_tagged hm]
    · rcases role_of_mem_marked hm with hr | hr | hr <;> simp [hr]

theorem name_of_shows (h : Shows p.buffer p.roles start q.core)
    (hk : p.parameters[k]? = some (start, start + q.core.length)) :
    p.parameterName? k = some q.names.last.chars := by
  have hname := roleText?_name (fun m hm => role_of_mem_typeMarked hm) h.marked_eq
  simpa [parameterName?, hk] using hname

-- The colon is the first place that has its role.
theorem type_of_shows (h : Shows p.buffer p.roles start q.core)
    (hk : p.parameters[k]? = some (start, start + q.core.length)) :
    p.parameterType? k = q.typeRead := by
  simp only [parameterType?, hk, Option.bind_eq_bind, Option.bind_some]
  unfold core typeRead at *
  generalize q.type? = type? at h ⊢
  rcases type? with _ | ⟨before, after, type⟩
  -- Without a colon the search runs to the end, and the type is collected from the start.
  case none =>
    simp only [typeMarked, List.append_nil] at h ⊢
    have hcolon : ¬Buffer.seek (p.roles.get · = some .nameTypeSeparator) start
        (start + (q.names.marked .name).length) < start + (q.names.marked .name).length := by
      intro hlt
      have hrole := of_decide_eq_true (Buffer.of_seek_lt hlt)
      obtain ⟨m, hm, hr⟩ := h.exists_mem (Buffer.le_seek ..) hlt
      rw [hr] at hrole
      rcases role_of_mem_marked hm with hm | hm | hm <;> simp [hm] at hrole
    rw [if_neg hcolon]
    exact typeText?_modifiers h.marked_eq
  case some =>
    have hsplit : q.names.marked .name ++ typeMarked (some (before, after, type)) =
        (q.names.marked .name ++ tagged none before.tokens) ++
          (⟨.symbol, [':']⟩, some .nameTypeSeparator) ::
            (tagged none after.tokens ++ type.marked .type) := by
      simp [typeMarked]
    rw [hsplit, Shows.append] at h
    rw [hsplit]
    generalize hcolon : start + (q.names.marked .name ++ tagged none before.tokens).length =
      colon at h
    obtain ⟨hnames, -, hrole, htype⟩ := h
    have hlen : start + ((q.names.marked .name ++ tagged none before.tokens) ++
        (⟨.symbol, [':']⟩, some .nameTypeSeparator) ::
          (tagged none after.tokens ++ type.marked .type)).length =
        colon + 1 + (tagged none after.tokens ++ type.marked .type).length := by
      simp only [← hcolon, List.length_append, List.length_cons]
      omega
    have hseek (stop : Nat) (hlt : colon < stop) :
        Buffer.seek (p.roles.get · = some .nameTypeSeparator) start stop = colon := by
      rw [Buffer.seek_from (fun k hk hl => ?_) (show start ≤ colon by omega) (Nat.le_of_lt hlt),
        Buffer.seek_hit hlt (by simp [hrole])]
      obtain ⟨m, hm, hr⟩ := hnames.exists_mem hk (hcolon ▸ hl)
      rw [hr]
      rcases List.mem_append.mp hm with hm | hm
      · rcases role_of_mem_marked hm with hm | hm | hm <;> simp [hm]
      · simp [role_of_mem_tagged hm]
    rw [hlen, hseek _ (by omega), if_pos (by omega)]
    refine typeText?_marked (fun m hm => ?_) (List.forall_mem_nil IsForeign)
      (by rw [htype.marked_eq, List.append_nil])
    simp [IsForeign, role_of_mem_tagged hm]

end Parameter

namespace Signature

open Token

variable {profile : Profile} {buf : Buffer} {roles : Roles} {k n : Nat} {s : Signature}

def parameters (s : Signature) : List Parameter :=
  s.first :: s.others.map Prod.snd

def print (s : Signature) : List Char :=
  s.head.print ++ (s.beforeList.chars ++ '(' :: (printList s.first s.others ++
    (s.beforeColon.chars ++ ':' :: (s.afterColon.chars ++ (s.result.print ++ s.after.chars)))))

def pieces (s : Signature) : List (Separator × Piece) :=
  s.others.map fun q => (q.1, q.2.piece)

def tokens (s : Signature) : List Token :=
  s.head.tokens ++ (s.beforeList.tokens ++ ⟨.symbol, ['(']⟩ ::
    (Piece.listTokens s.first.piece s.pieces ++ (s.beforeColon.tokens ++ ⟨.symbol, [':']⟩ ::
      (s.afterColon.tokens ++ (s.result.tokens ++ s.after.tokens)))))

theorem scan_printList_append (p : Parameter) (qs : List (Separator × Parameter))
    (rest : List Char) :
    scan (printList p qs ++ rest) =
      Piece.listTokens p.piece (qs.map fun q => (q.1, q.2.piece)) ++ scan rest := by
  induction qs generalizing p
  case nil =>
    simp only [printList, List.map_nil, Piece.listTokens, List.append_assoc, List.cons_append,
      List.nil_append]
    rw [p.scan_append (by decide), scan_symbol (by decide)]
  case cons q qs hi =>
    simp only [printList, List.map_cons, Piece.listTokens, List.append_assoc, List.cons_append]
    rw [p.scan_append q.1.ofChar_char, scan_symbol q.1.ofChar_char, hi]
    rfl

theorem scan_print (s : Signature) : scan s.print = s.tokens := by
  have hopen (rest : List Char) : ∀ c ∈ ('(' :: rest).head?,
      Kind.ofChar c ≠ .text ∧ Kind.ofChar c ≠ .blank := by
    rintro c ⟨rfl⟩
    decide
  have hcolon (rest : List Char) : ∀ c ∈ (':' :: rest).head?, Kind.ofChar c ≠ .blank := by
    rintro c ⟨rfl⟩
    decide
  have htext : ∀ c ∈ (s.after.chars ++ []).head?, Kind.ofChar c ≠ .text :=
    s.after.head_print (by simp)
  rw [List.append_nil] at htext
  rw [print, s.head.scan_print_append (s.beforeList.head_print fun c hc => (hopen _ c hc).1),
    s.beforeList.scan_append fun c hc => (hopen _ c hc).2, scan_symbol (by decide),
    scan_printList_append, s.beforeColon.scan_append (hcolon _), scan_symbol (by decide),
    s.afterColon.scan_append (s.result.head_print _), s.result.scan_print_append htext,
    s.after.scan_chars]
  rfl

def opener (s : Signature) : Nat :=
  s.head.tokens.length + s.beforeList.size

def stop (s : Signature) : Nat :=
  Piece.closer (s.opener + 1) s.first.piece s.pieces

def colon (s : Signature) : Nat :=
  s.stop + 1 + s.beforeColon.size

def resultStart (s : Signature) : Nat :=
  s.colon + 1 + s.afterColon.size

structure Layout (s : Signature) (buf : Buffer) : Prop where
  head : buf.Holds 0 s.head.tokens
  gap : buf.Holds s.head.tokens.length s.beforeList.tokens
  list : Piece.Encloses buf s.opener s.first.piece s.pieces
  beforeColon : buf.Holds (s.stop + 1) s.beforeColon.tokens
  colon : buf.tokens[s.colon]? = some ⟨.symbol, [':']⟩
  afterColon : buf.Holds (s.colon + 1) s.afterColon.tokens
  result : buf.Holds s.resultStart s.result.tokens
  after : buf.Holds (s.resultStart + s.result.tokens.length) s.after.tokens
  size_eq : buf.size = s.resultStart + s.result.tokens.length + s.after.size

theorem layout (s : Signature) : Layout s (Buffer.ofChars s.print) := by
  obtain ⟨h, hsize⟩ := Buffer.holds_ofChars s.scan_print
  have hstop : s.stop + 1 = s.opener + 1 + (Piece.listTokens s.first.piece s.pieces).length :=
    Piece.closer_add_one ..
  rw [tokens, Buffer.holds_append, Buffer.holds_append, Nat.zero_add] at h
  obtain ⟨hhead, hgap, hopen, hrest⟩ := h
  change Buffer.Holds _ (s.opener + 1) _ at hrest
  rw [Buffer.holds_append, Buffer.holds_append, ← hstop] at hrest
  obtain ⟨hlist, hbefore, hcolon, hrest⟩ := hrest
  change Buffer.Holds _ (s.colon + 1) _ at hrest
  rw [Buffer.holds_append, Buffer.holds_append] at hrest
  obtain ⟨hafter, hresult, hend⟩ := hrest
  have hstart : (Buffer.ofChars s.print).Holds 0 (s.head.tokens ++ s.beforeList.tokens) :=
    Buffer.holds_append.mpr ⟨hhead, by rwa [Nat.zero_add]⟩
  have hinert (t : Token) (ht : t ∈ s.head.tokens ++ s.beforeList.tokens) : t.IsInert := by
    rcases List.mem_append.mp ht with ht | ht
    · exact (plain_or_blank ht).elim Token.IsPlain.inert Token.inert_of_blank
    · exact Gap.inert ht
  refine ⟨hhead, hgap, ⟨⟨_, hstart, List.length_append, hinert⟩, hopen, hlist⟩, hbefore, hcolon,
    hafter, hresult, hend, ?_⟩
  rw [hsize, tokens]
  simp only [resultStart, colon, opener, List.length_append, List.length_cons, Gap.size] at hstop ⊢
  omega

namespace Layout

variable (h : Layout s buf) (hb : buf.WellFormed) (hc : Skip.Uncommented profile buf)

include h in
theorem bounds : s.head.tokens.length ≤ s.opener ∧ s.opener < s.stop ∧ s.stop < s.colon ∧
    s.colon < s.resultStart ∧ s.resultStart < buf.size := by
  have hle := Piece.le_closer (s.opener + 1) s.first.piece s.pieces
  have hpos := s.result.length_tokens_pos
  have hsize := h.size_eq
  change s.opener + 1 ≤ s.stop at hle
  simp only [Signature.opener, Signature.colon, resultStart] at *
  omega

include h hb hc in
theorem read_result {halt : Nat → Bool} (hh : ∀ k, s.resultStart ≤ k → halt k = false) :
    Word.read profile buf halt buf.size s.resultStart =
      (places s.resultStart s.result.words s.result.last, buf.size) := by
  have hend : Skip.nameEnd profile buf buf.size (s.resultStart + s.result.tokens.length) =
      s.resultStart + s.result.tokens.length := by
    refine nameEnd_gap hb h.after (fun hg => ?no_gap) ?_ ?_
    case no_gap => exact Skip.nameEnd_stops profile hb (.limit (by rw [h.size_eq, hg]; rfl))
    all_goals
      rw [← h.size_eq]
      simp [Skip.isTypeSuffix, Skip.isPointer, Buffer.symbol?, Buffer.isSymbol, Buffer.isBlank,
        Buffer.isToken, Buffer.kind?, Buffer.size]
  rw [read_through hb hc (Buffer.holds_append.mpr ⟨h.result, h.after⟩) (Nat.le_of_eq h.size_eq.symm)
    (fun k hk _ => hh k hk) hend, ← h.size_eq, Word.read_end (Nat.lt_irrefl _), List.append_nil]

-- The colon behind the list decides that the result is marked first, and then the name, each in a
-- place where there are no roles yet.
include h hb hc in
theorem markAround_eq (hn : ∀ k, k < s.opener ∨ s.stop < k → roles.get k = none) :
    markAround profile buf (Piece.delimited s.opener s.first.piece s.pieces) roles =
      assign .name (assign .type roles s.resultStart s.result.words s.result.last) 0
        s.head.words s.head.last := by
  have ⟨hopener, hstop, hcolon, hstart, hsize⟩ := h.bounds
  have hchar : buf.isChar s.colon ':' = true := Buffer.isChar_iff.mpr ⟨_, h.colon, rfl, rfl⟩
  have hafter : buf.afterBlanks (s.stop + 1) buf.size = s.colon :=
    Gap.afterBlanks_eq h.beforeColon (show s.colon ≤ buf.size by omega)
      (.inr (Buffer.not_isBlank_of_isChar hchar))
  have hresult : buf.afterBlanks (s.colon + 1) buf.size = s.resultStart :=
    Gap.afterBlanks_eq h.afterColon (show s.resultStart ≤ buf.size by omega)
      (.inr (not_isBlank_first h.result))
  have hpos := s.head.length_tokens_pos
  have hlast := not_isBlank_last h.head
  rw [Nat.zero_add] at hlast
  have hbefore : buf.beforeBlanks 0 s.opener = s.head.tokens.length :=
    Gap.beforeBlanks_eq h.gap hpos hlast
  have htype : ReadAlone profile buf roles s.resultStart buf.size s.result.words s.result.last := by
    have hseparator (k : Nat) (hk : s.resultStart ≤ k) : isSeparator roles k = false := by
      simp [isSeparator, hn k (.inr (by omega))]
    exact ⟨by rw [h.read_result hb hc fun _ _ => rfl], by rw [h.read_result hb hc hseparator]⟩
  generalize hroles : assign .type roles s.resultStart s.result.words s.result.last = roles₁
  have hread {halt : Nat → Bool} (hh : ∀ k, k < s.head.tokens.length → halt k = false) :
      (Word.read profile buf halt s.head.tokens.length 0).1 =
        places 0 s.head.words s.head.last := by
    have := Pascal.read_names hb hc h.head halt fun k _ hk => hh k (by omega)
    rw [Nat.zero_add] at this
    rw [this]
  have hname : ReadAlone profile buf roles₁ 0 s.head.tokens.length s.head.words s.head.last := by
    have hseparator (k : Nat) (hk : k < s.head.tokens.length) : isSeparator roles₁ k = false := by
      have : roles₁.get k = none := by
        rw [← hroles, get_assign (.inl (by omega)), hn k (.inl (by omega))]
      simp [isSeparator, this]
    exact ⟨hread fun _ _ => rfl, hread hseparator⟩
  have hdelimited : (Piece.delimited s.opener s.first.piece s.pieces).stop buf = s.stop ∧
      (Piece.delimited s.opener s.first.piece s.pieces).opener = s.opener := ⟨rfl, rfl⟩
  unfold markAround
  simp only [hdelimited, hafter, hbefore, hchar, hresult, hsize, hpos,
    show s.colon < buf.size by omega, and_self, ↓reduceIte]
  rw [markModifiersAndType_eq hb htype h.result, hroles, markModifiersAndName_eq hname h.head]

theorem pieces_eq (s : Signature) :
    s.first.piece :: s.pieces.map Prod.snd = s.parameters.map Parameter.piece := by
  simp [pieces, parameters, Function.comp_def]

include hb hc in
theorem showsIn_pieces : ∀ q ∈ s.first.piece :: s.pieces.map Prod.snd,
    q.ShowsIn profile buf .pascal := by
  intro q hq
  rw [pieces_eq] at hq
  obtain ⟨r, -, rfl⟩ := List.mem_map.mp hq
  exact r.piece_showsIn hb hc

include h hb hc in
theorem shows_parameter {q : Parameter} (hq : s.parameters[n]? = some q) :
    ∃ start, (Piece.spans (s.opener + 1) s.first.piece s.pieces)[n]? =
        some (start, start + q.core.length) ∧ s.opener < start ∧ start + q.core.length ≤ s.stop ∧
      Shows buf (Piece.Encloses.listRoles profile buf .pascal s.opener s.first.piece s.pieces)
        start q.core := by
  have hpiece : (s.first.piece :: s.pieces.map Prod.snd)[n]? = some q.piece := by
    rw [pieces_eq, List.getElem?_map, hq]
    rfl
  obtain ⟨⟨start, stop⟩, hspan, hstop, hstart, hle, hshows⟩ :=
    h.list.shows_listRoles hb (showsIn_pieces hb hc) hpiece
  obtain rfl : stop = start + q.core.length := hstop
  exact ⟨start, hspan, hstart, hle, hshows⟩

-- One parameter with a colon is enough.
include h hb hc in
theorem style_eq :
    listStyle? profile buf (Piece.spans (s.opener + 1) s.first.piece s.pieces) =
      some .pascal := by
  obtain ⟨q, hmem, htyped⟩ := s.typed
  obtain ⟨n, hq⟩ := List.mem_iff_getElem?.mp (show q ∈ s.parameters from hmem)
  obtain ⟨start, hspan, -, -, hshows⟩ := h.shows_parameter hb hc hq
  have hcolon : hasColon profile buf (start + q.core.length) start = true := by
    have hholds := hshows.holds
    unfold Parameter.core at hholds ⊢
    generalize q.type? = type? at hholds htyped ⊢
    rcases type? with _ | ⟨before, after, type⟩
    case none => exact absurd rfl htyped
    case some =>
      refine (Stands.of_holds hholds).hasColon_eq hb hc ?_
      simp only [typeMarked, List.length_append, List.length_cons, length_tagged,
        Phrase.length_marked, Gap.size]
      omega
  have hlen := Piece.length_spans (s.opener + 1) s.first.piece s.pieces
  have hne : (Piece.spans (s.opener + 1) s.first.piece s.pieces).isEmpty = false := by
    cases hspans : Piece.spans (s.opener + 1) s.first.piece s.pieces
    case nil => simp [hspans] at hlen
    case cons => rfl
  have hany : (Piece.spans (s.opener + 1) s.first.piece s.pieces).any
      (fun r => styleOf profile buf r.1 r.2 = .pascal) = true :=
    List.any_eq_true.mpr ⟨_, List.mem_of_getElem? hspan, by simp [styleOf, hcolon]⟩
  simp only [listStyle?, hne, hany, Bool.false_eq_true, ↓reduceIte]

end Layout

def beforeResult (s : Signature) : List Marked :=
  tagged none s.beforeColon.tokens ++ (⟨.symbol, [':']⟩, none) :: tagged none s.afterColon.tokens

theorem length_beforeResult (s : Signature) :
    s.beforeResult.length = s.beforeColon.size + 1 + s.afterColon.size := by
  simp only [beforeResult, List.length_append, List.length_cons, length_tagged, Gap.size]
  omega

def reading (s : Signature) (profile : Profile) (buf : Buffer) : Prototype where
  buffer := buf
  roles := assign .name
    (assign .type (Piece.Encloses.listRoles profile buf .pascal s.opener s.first.piece s.pieces)
      s.resultStart s.result.words s.result.last) 0 s.head.words s.head.last
  style := some .pascal
  parameters := Piece.spans (s.opener + 1) s.first.piece s.pieces
  list := some (s.opener, s.stop)

theorem ofText_eq (s : Signature) (h : Skip.Uncommented profile (Buffer.ofChars s.print)) :
    ofText profile s.print = s.reading profile (Buffer.ofChars s.print) := by
  have hl := s.layout
  have hb := Buffer.wellFormed_ofChars s.print
  have hnone (k : Nat) (hk : k < s.opener ∨ s.stop < k) :
      (Piece.Encloses.listRoles profile (Buffer.ofChars s.print) .pascal s.opener s.first.piece
        s.pieces).get k = none := hl.list.get_listRoles hb hk
  have hroles := hl.markAround_eq hb h hnone
  simp only [ofText, hl.list.delimit?_eq h, ofDelimited, hl.list.parameters_eq, hl.style_eq hb h,
    Option.getD_some]
  exact congrArg (Prototype.mk _ · _ _ _) hroles

namespace Layout

variable (h : Layout s buf) (hb : buf.WellFormed) (hc : Skip.Uncommented profile buf)

include h hb in
theorem get_reading (hk : k < s.opener ∨ s.stop < k) (hhead : s.head.tokens.length ≤ k)
    (hresult : k < s.resultStart ∨ s.resultStart + s.result.tokens.length ≤ k) :
    (s.reading profile buf).roles.get k = none := by
  rw [reading, get_assign (.inr (by rwa [Nat.zero_add])), get_assign hresult,
    h.list.get_listRoles hb hk]

include h hb in
theorem name_reading : (s.reading profile buf).name? = some s.head.last.chars := by
  have ⟨hopener, hstop, hcolon, hstart, _⟩ := h.bounds
  have hshows : Shows buf (s.reading profile buf).roles 0
      (s.head.marked .name ++ tagged none s.beforeList.tokens) := by
    refine Shows.append.mpr ⟨shows_assign ?size h.head fun k _ hl => ?unmarked, ?gap⟩
    case size => simp [h.list.size_listRoles hb]
    case unmarked =>
      change k < 0 + s.head.tokens.length at hl
      rw [get_assign (.inl (by omega)), h.list.get_listRoles hb (.inl (by omega))]
    case gap =>
      rw [Phrase.length_marked, Nat.zero_add]
      refine .of_holds h.gap fun k hk hl => ?_
      change k < s.opener at hl
      exact h.get_reading hb (.inl hl) hk (.inl (by omega))
  have hlen : s.opener =
      0 + (s.head.marked .name ++ tagged none s.beforeList.tokens).length := by
    simp [Signature.opener, Gap.size]
  have hmarked : (s.reading profile buf).marked 0 s.opener =
      s.head.marked .name ++ tagged none s.beforeList.tokens := by
    rw [hlen]
    exact Shows.marked_eq hshows
  exact roleText?_name (fun m hm => by simp [role_of_mem_tagged hm]) hmarked

-- Behind the list stand the colon, which has no role, and the result between blanks.
include h hb in
theorem shows_afterList : Shows buf (s.reading profile buf).roles (s.stop + 1)
    (s.beforeResult ++ (s.result.marked .type ++ tagged none s.after.tokens)) := by
  have ⟨hopener, hstop, hcolon, hstart, _⟩ := h.bounds
  have hbefore : s.stop + 1 + (tagged none s.beforeColon.tokens).length = s.colon := by
    rw [length_tagged]
    rfl
  have hresult : s.stop + 1 + s.beforeResult.length = s.resultStart := by
    rw [length_beforeResult, resultStart, Signature.colon]
    omega
  have hnone (k : Nat) (hk : s.stop < k) (hl : k < s.resultStart) :
      (s.reading profile buf).roles.get k = none :=
    h.get_reading hb (.inr hk) (by omega) (.inl hl)
  refine Shows.append.mpr ⟨Shows.append.mpr ⟨?beforeColon, ?colon⟩,
    Shows.append.mpr ⟨?result, ?after⟩⟩
  case beforeColon =>
    refine .of_holds h.beforeColon fun k hk hl => hnone k hk ?_
    change k < s.colon at hl
    omega
  case colon =>
    rw [hbefore]
    refine ⟨h.colon, hnone _ hcolon hstart, .of_holds h.afterColon fun k hk hl => ?_⟩
    exact hnone k (by omega) hl
  case result =>
    rw [hresult]
    have hmarks : Shows buf (assign .type (Piece.Encloses.listRoles profile buf .pascal s.opener
        s.first.piece s.pieces) s.resultStart s.result.words s.result.last) s.resultStart
        (s.result.marked .type) :=
      shows_assign (h.list.size_listRoles hb) h.result fun k hk _ =>
        h.list.get_listRoles hb (.inr (show s.stop < k by omega))
    refine hmarks.congr fun k hk _ => get_assign (.inr ?_)
    change 0 + s.head.tokens.length ≤ k
    omega
  case after =>
    rw [hresult, Phrase.length_marked]
    exact .of_holds h.after fun k hk _ => h.get_reading hb (.inr (by omega)) (by omega) (.inr hk)

include h hb in
theorem result_reading : (s.reading profile buf).returnType? = some s.result.text := by
  have hsize : buf.size = s.stop + 1 +
      (s.beforeResult ++ (s.result.marked .type ++ tagged none s.after.tokens)).length := by
    simp only [List.length_append, length_beforeResult, length_tagged, Phrase.length_marked,
      h.size_eq, resultStart, Signature.colon, Gap.size]
    omega
  have hmarked : (s.reading profile buf).marked (s.stop + 1) buf.size =
      s.beforeResult ++ (s.result.marked .type ++ tagged none s.after.tokens) := by
    rw [hsize]
    exact Shows.marked_eq (h.shows_afterList hb)
  have htype := typeText?_marked (fun m hm => ?before) (fun m hm => ?after) hmarked
  case before =>
    rcases List.mem_append.mp hm with hm | hm
    · simp [IsForeign, role_of_mem_tagged hm]
    · rcases List.mem_cons.mp hm with rfl | hm
      · simp [IsForeign]
      · simp [IsForeign, role_of_mem_tagged hm]
  case after => simp [IsForeign, role_of_mem_tagged hm]
  change (typeText? _ (s.stop + 1) buf.size).or _ = _
  rw [htype, Option.some_or]

-- What a parameter shows is not touched by the marks of the name and of the result, which stand
-- outside of the list.
include h hb hc in
theorem parameter_reading {q : Parameter} (hq : s.parameters[n]? = some q) :
    (s.reading profile buf).parameterName? n = some q.names.last.chars ∧
      (s.reading profile buf).parameterType? n = q.typeRead := by
  have ⟨hopener, hstop, hcolon, hstart, _⟩ := h.bounds
  obtain ⟨start, hspan, hlt, hle, hshows⟩ := h.shows_parameter hb hc hq
  have hshows : Shows (s.reading profile buf).buffer (s.reading profile buf).roles start q.core := by
    refine hshows.congr fun k hk hl => ?_
    rw [reading, get_assign (.inr (show 0 + s.head.tokens.length ≤ k by omega)),
      get_assign (.inl (by omega))]
  exact ⟨Parameter.name_of_shows hshows hspan, Parameter.type_of_shows hshows hspan⟩

end Layout

-- What is printed is read back: the name, the type behind the list, and each parameter with its
-- name. The type behind its own colon is read as its type; a parameter without a colon has no type
-- only if it has no modifiers, which are otherwise read in its place.
theorem ofText_print_pascal (profile : Profile) (s : Signature)
    (h : Skip.Uncommented profile (Buffer.ofChars s.print)) :
    let p := ofText profile s.print
    p.style = some .pascal ∧
    p.parameters.length = s.parameters.length ∧
    p.name? = some s.head.last.chars ∧
    p.returnType? = some s.result.text ∧
    ∀ k q, s.parameters[k]? = some q →
      p.parameterName? k = some q.names.last.chars ∧
      p.parameterType? k =
        match q.type? with
        | some (_, _, type) => some type.text
        | none =>
          if q.names.words = [] then none
          else some (PlainWord.joined (q.names.words.map Prod.fst)) := by
  have hl := s.layout
  have hb := Buffer.wellFormed_ofChars s.print
  dsimp only
  rw [s.ofText_eq h]
  refine ⟨rfl, ?count, hl.name_reading hb, hl.result_reading hb, fun k q hq => ?parameter⟩
  case count =>
    change (Piece.spans (s.opener + 1) s.first.piece s.pieces).length = _
    simp [Piece.length_spans, parameters, pieces]
  case parameter => exact hl.parameter_reading hb h hq

-- `function F (const a, b: string): integer`
def constant : Signature where
  head := ⟨[(⟨"function".toList, by decide, by decide⟩, .single)], ⟨['F'], by decide, by decide⟩,
    by decide⟩
  beforeList := .spaces 1
  first := ⟨.spaces 0, ⟨[(⟨"const".toList, by decide, by decide⟩, .single)],
    ⟨['a'], by decide, by decide⟩, by decide⟩, none, .spaces 0⟩
  others := [(.comma, ⟨.spaces 1, ⟨[], ⟨['b'], by decide, by decide⟩, by decide⟩,
    some (.spaces 0, .spaces 1, ⟨[], ⟨"string".toList, by decide, by decide⟩, by decide⟩),
    .spaces 0⟩)]
  beforeColon := .spaces 0
  afterColon := .spaces 1
  result := ⟨[], ⟨"integer".toList, by decide, by decide⟩, by decide⟩
  after := .spaces 0
  typed := ⟨_, .tail _ (.head _), by decide⟩

theorem print_constant : constant.print = "function F (const a, b: string): integer".toList := by
  decide

theorem uncommented_constant :
    Skip.Uncommented .builtinPascal (Buffer.ofChars constant.print) := by
  have hb := Buffer.wellFormed_ofChars constant.print
  have hnot {c : Char} (hc : c ∉ constant.print) (i : Nat) :
      (Buffer.ofChars constant.print).isChar i c = false :=
    Bool.eq_false_iff.mpr fun h => hc (Buffer.mem_of_isChar h)
  refine ⟨fun i s hs => ?line, fun i s hs => ?block⟩
  case line =>
    obtain rfl := List.mem_singleton.mp hs
    rw [Buffer.matchesAt_symbols hb (by decide)]
    simp [Buffer.spells, hnot (c := '/') (by decide)]
  case block =>
    simp only [Profile.builtinPascal, List.mem_cons, List.not_mem_nil, or_false] at hs
    rcases hs with rfl | rfl <;> rw [Buffer.matchesAt_symbols hb (by decide)]
    · simp [Buffer.spells, hnot (c := '*') (by decide)]
    · simp [Buffer.spells, hnot (c := '\x7b') (by decide)]

theorem ofText_print_pascal_constant :
    let p := ofText .builtinPascal "function F (const a, b: string): integer".toList
    p.style = some .pascal ∧ p.parameters.length = 2 ∧ p.name? = some ['F'] ∧
      p.returnType? = some "integer".toList ∧ p.parameterName? 0 = some ['a'] ∧
      p.parameterName? 1 = some ['b'] ∧ p.parameterType? 1 = some "string".toList := by
  obtain ⟨hstyle, hlen, hname, hresult, hparam⟩ :=
    ofText_print_pascal .builtinPascal constant uncommented_constant
  rw [← print_constant]
  have ha := hparam 0 _ rfl
  have hb := hparam 1 _ rfl
  exact ⟨hstyle, hlen, hname, hresult, ha.1, hb.1, hb.2⟩

-- The first parameter has no colon, and nevertheless a type.
theorem modifier_read_as_type :
    constant.print = "function F (const a, b: string): integer".toList ∧
      Skip.Uncommented .builtinPascal (Buffer.ofChars constant.print) ∧
      constant.first.type? = none ∧ constant.parameters[0]? = some constant.first ∧
      (ofText .builtinPascal constant.print).parameterType? 0 = some "const".toList := by
  refine ⟨print_constant, uncommented_constant, rfl, rfl, ?_⟩
  rw [ofText_eq _ uncommented_constant]
  exact (constant.layout.parameter_reading (Buffer.wellFormed_ofChars _) uncommented_constant
    (q := constant.first) rfl).2

end Signature
end SourceDocs.Pascal

import SourceDocs.Proofs.Trim
import SourceDocs.Symbol.Basic

namespace SourceDocs.Symbol

open Text Unicode

variable {a b c : Char} {cs rest piece current : List Char} {more : List (List Char)}
  {before : Option Char}

def IsPair (a b : Char) : Prop :=
  a = ':' ∧ b = ':' ∨ a = '-' ∧ b = '>'

theorem afterSeparator?_eq_some_iff : afterSeparator? cs = some rest ↔
    cs = '.' :: rest ∨ ∃ a b, IsPair a b ∧ cs = a :: b :: rest := by
  constructor
  case mp =>
    intro h
    unfold afterSeparator? at h
    split at h <;> cases h
    case h_1 => exact .inl rfl
    case h_2 => exact .inr ⟨_, _, .inl ⟨rfl, rfl⟩, rfl⟩
    case h_3 => exact .inr ⟨_, _, .inr ⟨rfl, rfl⟩, rfl⟩
  case mpr =>
    rintro (rfl | ⟨a, b, ⟨rfl, rfl⟩ | ⟨rfl, rfl⟩, rfl⟩) <;> rfl

theorem afterSeparator?_eq_none_iff : afterSeparator? (c :: rest) = none ↔
    c ≠ '.' ∧ ∀ a b, IsPair a b → c = a → rest.head? ≠ some b := by
  rw [Option.eq_none_iff_forall_ne_some]
  simp only [ne_eq, afterSeparator?_eq_some_iff, List.cons.injEq, not_or, not_exists, not_and]
  constructor
  case mp =>
    intro h
    refine ⟨fun hc => (h rest).1 hc rfl, fun a b hp hc hb => ?_⟩
    obtain ⟨rest', rfl⟩ := List.head?_eq_some_iff.mp hb
    exact (h rest').2 a b hp hc rfl
  case mpr =>
    rintro ⟨hdot, hp⟩ rest'
    exact ⟨fun hc => absurd hc hdot, fun a b h hc hr => hp a b h hc (by rw [hr]; rfl)⟩

-- What a separator starts with is no letter and no white space.
theorem isTextChar_of_afterSeparator? (h : afterSeparator? (c :: cs) = some rest) :
    isTextChar c = false ∧ isWhiteSpace c = false := by
  rcases afterSeparator?_eq_some_iff.mp h with h | ⟨a, b, ⟨rfl, rfl⟩ | ⟨rfl, rfl⟩, h⟩ <;>
    cases h <;> decide

def pieces (cs : List Char) : List (List Char) :=
  match cs with
  | [] => [[]]
  | c :: rest =>
    match _h : afterSeparator? (c :: rest) with
    | some rest => [] :: pieces rest
    | none => (pieces rest).modifyHead (c :: ·)
termination_by cs.length
decreasing_by
  case _ => exact length_afterSeparator? _h
  case _ => simp

@[simp]
theorem pieces_nil : pieces [] = [[]] := by
  rw [pieces]

theorem pieces_separator (h : afterSeparator? cs = some rest) :
    pieces cs = [] :: pieces rest := by
  cases cs
  case nil => cases h
  case cons => rw [pieces]; split <;> simp_all

theorem pieces_plain (h : afterSeparator? (c :: rest) = none) :
    pieces (c :: rest) = (pieces rest).modifyHead (c :: ·) := by
  rw [pieces]; split <;> simp_all

theorem exists_pieces (cs : List Char) : ∃ piece more, pieces cs = piece :: more := by
  fun_induction pieces cs
  case case1 => exact ⟨_, _, rfl⟩
  case case2 => exact ⟨_, _, rfl⟩
  case case3 c rest h ih =>
    obtain ⟨piece, more, hp⟩ := ih
    exact ⟨c :: piece, more, by rw [hp]; rfl⟩

theorem isWhiteSpace_of_isGap (h : isGap c = true) : isWhiteSpace c = true := by
  simp only [isGap, Bool.or_eq_true, decide_eq_true_eq] at h
  rcases h with ((rfl | rfl) | rfl) | rfl <;> decide

-- A gap and the white space behind it come before the next character.
theorem exists_blanks (h : isGap c = true) (rest : List Char) : ∃ blanks,
    c :: rest = blanks ++ rest.dropWhile isWhiteSpace ∧ ∀ d ∈ blanks, isWhiteSpace d = true :=
  ⟨c :: rest.takeWhile isWhiteSpace, congrArg (c :: ·) List.takeWhile_append_dropWhile.symm,
    List.forall_mem_cons.mpr ⟨isWhiteSpace_of_isGap h, fun _ => List.mem_takeWhile_imp⟩⟩

-- A text in which white space is kept only between two letters, and there as one space. White space
-- that starts with another character than a blank or a line break is taken for letters.
def squeeze (before : Option Char) (cs : List Char) : List Char :=
  match cs with
  | [] => []
  | c :: rest =>
    if isGap c then
      let next := rest.dropWhile isWhiteSpace
      (if before.any isTextChar && next.head?.any isTextChar then [' '] else []) ++
        squeeze none next
    else
      c :: squeeze (some c) rest
termination_by cs.length
decreasing_by
  case _ =>
    have := (List.dropWhile_sublist isWhiteSpace (l := rest)).length_le
    simp only [List.length_cons]
    exact Nat.lt_succ_of_le this
  case _ => simp

@[simp]
theorem squeeze_nil : squeeze before [] = [] := by
  rw [squeeze]

theorem squeeze_plain (h : isGap c = false) :
    squeeze before (c :: rest) = c :: squeeze (some c) rest := by
  rw [squeeze, if_neg (by simp [h])]

theorem squeeze_gap (h : isGap c = true) : squeeze before (c :: rest) =
    (if before.any isTextChar && (rest.dropWhile isWhiteSpace).head?.any isTextChar then [' ']
      else []) ++ squeeze none (rest.dropWhile isWhiteSpace) := by
  rw [squeeze, if_pos h]

-- White space belongs to the piece that follows it, up to the next character.
theorem pieces_white {blanks : List Char} (hb : ∀ c ∈ blanks, isWhiteSpace c = true) :
    pieces (blanks ++ cs) = (pieces cs).modifyHead (blanks ++ ·) := by
  induction blanks
  case nil => exact (congrFun List.modifyHead_id _).symm
  case cons c blanks ih =>
    have hnone : afterSeparator? (c :: (blanks ++ cs)) = none := by
      cases h : afterSeparator? (c :: (blanks ++ cs))
      case none => rfl
      case some =>
        have hw := hb c List.mem_cons_self
        rw [(isTextChar_of_afterSeparator? h).2] at hw
        cases hw
    rw [List.cons_append, pieces_plain hnone, ih fun c hc => hb c (List.mem_cons_of_mem _ hc),
      List.modifyHead_modifyHead]
    rfl

theorem head?_of_pieces (h : pieces cs = piece :: more) :
    piece.head? = cs.head? ∨ piece = [] ∧ ∃ rest, afterSeparator? cs = some rest := by
  cases cs
  case nil =>
    rw [pieces_nil] at h
    cases h
    exact .inl rfl
  case cons c cs =>
    cases hs : afterSeparator? (c :: cs)
    case some rest =>
      rw [pieces_separator hs] at h
      cases h
      exact .inr ⟨rfl, rest, rfl⟩
    case none =>
      obtain ⟨piece', more', hp⟩ := exists_pieces cs
      rw [pieces_plain hs, hp] at h
      cases h
      exact .inl rfl

theorem any_isTextChar_of_pieces (h : pieces cs = piece :: more) :
    piece.head?.any isTextChar = cs.head?.any isTextChar := by
  rcases head?_of_pieces h with h | ⟨rfl, rest, hs⟩
  case inl => rw [h]
  case inr =>
    cases cs
    case nil => rfl
    case cons c cs => simp [(isTextChar_of_afterSeparator? hs).1]

-- White space at the beginning of a piece is squeezed up to the first character behind it.
theorem squeeze_gap_append {blanks : List Char} (hc : isGap c = true)
    (hb : ∀ c ∈ blanks, isWhiteSpace c = true) (hp : ∀ c ∈ piece.head?, isWhiteSpace c = false) :
    squeeze before (c :: (blanks ++ piece)) =
      (if before.any isTextChar && piece.head?.any isTextChar then [' '] else []) ++
        squeeze none piece := by
  have hdrop : (blanks ++ piece).dropWhile isWhiteSpace = piece := by
    rw [List.dropWhile_append_of_pos hb]
    cases piece
    case nil => rfl
    case cons d piece => simp [hp d rfl]
  rw [squeeze_gap hc, hdrop]

-- The segments of a text are its pieces, squeezed and trimmed. Of the first piece, `current` has
-- been read.
theorem readSegments_eq (hb : before.any isTextChar = true → current ≠ [])
    (h : pieces cs = piece :: more) : readSegments current before cs =
      segment (current ++ squeeze before piece) ++
        more.flatMap fun piece => segment (squeeze none piece) := by
  fun_induction readSegments current before cs generalizing piece more
  case case1 current before =>
    rw [pieces_nil] at h
    cases h
    simp
  case case2 current before c rest rest' hs ih =>
    obtain ⟨piece', more', hp⟩ := exists_pieces rest'
    rw [pieces_separator hs, hp] at h
    cases h
    simp [ih nofun hp]
  case case3 current before c rest hs hc next keep ih =>
    obtain ⟨piece', more', hp⟩ := exists_pieces next
    have hblanks : ∀ d ∈ rest.takeWhile isWhiteSpace, isWhiteSpace d = true :=
      fun _ => List.mem_takeWhile_imp
    have hcs : c :: rest = (c :: rest.takeWhile isWhiteSpace) ++ next :=
      congrArg (c :: ·) List.takeWhile_append_dropWhile.symm
    rw [hcs, pieces_white (List.forall_mem_cons.mpr ⟨isWhiteSpace_of_isGap hc, hblanks⟩), hp] at h
    cases h
    have hhead : ∀ d ∈ piece'.head?, isWhiteSpace d = false := by
      rcases head?_of_pieces hp with h | ⟨rfl, -⟩
      case inl => exact h ▸ head?_trimStart rest
      case inr => nofun
    have hkeep : keep = (before.any isTextChar && piece'.head?.any isTextChar) := by
      rw [any_isTextChar_of_pieces hp]
      grind
    have ih := ih nofun hp
    rw [dite_eq_ite] at ih
    change _ = segment (current ++ squeeze before (c :: (rest.takeWhile isWhiteSpace ++ piece'))) ++ _
    rw [ih, squeeze_gap_append hc hblanks hhead, ← hkeep]
    split <;> simp
  case case4 current before c rest hs hc ih =>
    obtain ⟨piece', more', hp⟩ := exists_pieces rest
    rw [pieces_plain hs, hp] at h
    cases h
    rw [ih (fun _ => List.concat_ne_nil c current) hp,
      squeeze_plain (Bool.eq_false_iff.mpr hc), List.append_assoc, List.singleton_append]

variable {text : List Char} {s : Symbol} {seg : String}

def segmentsOf (text : List Char) : List (List Char) :=
  (pieces (trim text)).flatMap fun piece => segment (squeeze none piece)

theorem mem_segment_iff : cs ∈ segment current ↔ cs = trim current ∧ cs ≠ [] := by
  unfold segment
  split <;> grind

theorem mem_segmentsOf_iff : cs ∈ segmentsOf text ↔
    cs ≠ [] ∧ ∃ piece ∈ pieces (trim text), cs = trim (squeeze none piece) := by
  simp only [segmentsOf, List.mem_flatMap, mem_segment_iff]
  tauto

theorem normalize?_eq (text : List Char) : normalize? text =
    if segmentsOf text = [] then none else some ⟨(segmentsOf text).map String.ofList⟩ := by
  obtain ⟨piece, more, hp⟩ := exists_pieces (trim text)
  have hread : readSegments [] none (trim text) = segmentsOf text := by
    rw [readSegments_eq (by simp) hp, segmentsOf, hp]
    rfl
  unfold normalize?
  rw [hread]
  split <;> simp_all

theorem normalize?_eq_some_iff : normalize? text = some s ↔
    segmentsOf text ≠ [] ∧ s.segments = (segmentsOf text).map String.ofList := by
  obtain ⟨segments⟩ := s
  rw [normalize?_eq]
  split
  case isTrue h => exact ⟨nofun, fun hs => absurd h hs.1⟩
  case isFalse h => rw [and_iff_right h, Option.some_inj, mk.injEq, eq_comm]

-- The part of a text that its symbol is read off: what is before the parentheses at the end, unless
-- nothing would be left of it.
def readPart (text : List Char) : List Char :=
  if (normalize? (splitParentheses text).1).isSome then (splitParentheses text).1 else text

theorem splitParentheses_cases (text : List Char) : splitParentheses text = (text, none) ∨
    ∃ name params, splitParentheses text = (name, some params) := by
  unfold splitParentheses
  split
  case h_1 name params _ =>
    split
    case isTrue => exact .inr ⟨name, params, rfl⟩
    case isFalse => exact .inl rfl
  case h_2 => exact .inl rfl

theorem ofText?_eq (text : List Char) : ofText? text = normalize? (readPart text) := by
  rcases splitParentheses_cases text with h | ⟨name, params, h⟩
  case inl => simp [ofText?, readPart, h]
  case inr =>
    cases hn : normalize? name <;> simp [ofText?, readPart, h, hn]

end SourceDocs.Symbol

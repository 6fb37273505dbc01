import SourceDocs.Proofs.Symbol.Pieces

namespace SourceDocs.Symbol

open Text Unicode

variable {a b c : Char} {cs rest piece : List Char} {before : Option Char}

def GapBefore (b : Char) (cs : List Char) : Prop :=
  ∃ gap blanks rest, cs = gap :: blanks ++ b :: rest ∧ isGap gap = true ∧
    ∀ c ∈ blanks, isWhiteSpace c = true

-- The two characters follow each other in the text, with a gap between them.
def Apart (a b : Char) (cs : List Char) : Prop :=
  ∃ front rest, cs = front ++ a :: rest ∧ GapBefore b rest

theorem apart_nil : ¬Apart a b [] := by
  rintro ⟨front, rest, h, -⟩
  simp at h

theorem apart_cons : Apart a b (c :: cs) ↔ c = a ∧ GapBefore b cs ∨ Apart a b cs := by
  constructor
  case mp =>
    rintro ⟨front, rest, h, hg⟩
    cases front
    case nil =>
      cases h
      exact .inl ⟨rfl, hg⟩
    case cons d front =>
      cases h
      exact .inr ⟨front, rest, rfl, hg⟩
  case mpr =>
    rintro (⟨rfl, hg⟩ | ⟨front, rest, rfl, hg⟩)
    · exact ⟨[], cs, rfl, hg⟩
    · exact ⟨c :: front, rest, rfl, hg⟩

theorem pair_infix_cons : [a, b] <:+: c :: cs ↔ c = a ∧ cs.head? = some b ∨ [a, b] <:+: cs := by
  rw [List.infix_cons_iff, List.cons_prefix_cons, eq_comm]
  refine or_congr_left (and_congr_right fun _ => ?_)
  cases cs <;> simp [List.cons_prefix_cons, eq_comm]

section Squeeze

-- The characters are taken to be no white space, which is lost, and the first of them to be no
-- letter, so that no space is kept behind it.
variable (ha : isWhiteSpace a = false) (hb : isWhiteSpace b = false) (ht : isTextChar a = false)

include hb in
theorem gapBefore_cons : GapBefore b (c :: cs) ↔
    isGap c = true ∧ (cs.dropWhile isWhiteSpace).head? = some b := by
  constructor
  case mp =>
    rintro ⟨gap, blanks, rest, h, hg, hw⟩
    rw [List.cons_append] at h
    cases h
    refine ⟨hg, ?_⟩
    rw [List.dropWhile_append_of_pos hw, List.dropWhile_cons_of_neg (by simp [hb])]
    rfl
  case mpr =>
    rintro ⟨hg, h⟩
    obtain ⟨rest, hr⟩ := List.head?_eq_some_iff.mp h
    refine ⟨c, cs.takeWhile isWhiteSpace, rest, ?_, hg, fun _ => List.mem_takeWhile_imp⟩
    rw [← hr, List.cons_append, List.takeWhile_append_dropWhile]

include ha in
theorem apart_white_append {blanks : List Char} (hw : ∀ c ∈ blanks, isWhiteSpace c = true) :
    Apart a b (blanks ++ cs) ↔ Apart a b cs := by
  induction blanks
  case nil => rfl
  case cons c blanks ih =>
    obtain ⟨hc, hw⟩ := List.forall_mem_cons.mp hw
    have hne : c ≠ a := by
      rintro rfl
      rw [hc] at ha
      cases ha
    rw [List.cons_append, apart_cons, ih hw]
    simp [hne]

include hb in
theorem head?_squeeze_eq_some_iff (hn : before.any isTextChar = false) :
    (squeeze before cs).head? = some b ↔ cs.head? = some b ∨ GapBefore b cs := by
  cases cs
  case nil => simp [GapBefore]
  case cons c rest =>
    rw [gapBefore_cons hb]
    cases hc : isGap c
    case false => simp [squeeze_plain hc]
    case true =>
      have hcb : c ≠ b := by
        rintro rfl
        rw [isWhiteSpace_of_isGap hc] at hb
        cases hb
      have hhead := head?_trimStart rest
      rw [squeeze_gap hc, hn]
      rw [trimStart] at hhead
      cases hnext : rest.dropWhile isWhiteSpace
      case nil => simp [hcb]
      case cons d ds =>
        have hd : isGap d = false := by
          rw [Bool.eq_false_iff]
          intro hd
          have := hhead d (by rw [hnext]; rfl)
          rw [isWhiteSpace_of_isGap hd] at this
          cases this
        simp [squeeze_plain hd, hcb]

include ha hb ht in
theorem pair_infix_squeeze_iff :
    [a, b] <:+: squeeze before cs ↔ [a, b] <:+: cs ∨ Apart a b cs := by
  fun_induction squeeze before cs
  case case1 => simp [apart_nil]
  case case2 before c rest hc next ih =>
    have hpair : ∀ c ∈ [a, b], isWhiteSpace c = false := by simp [ha, hb]
    obtain ⟨blanks, hcs, hblanks⟩ := exists_blanks hc rest
    rw [infix_white_append hpair, ih, hcs, infix_white_append hpair hblanks,
      apart_white_append ha hblanks]
    split <;> simp; decide
  case case3 before c rest hc ih =>
    rw [pair_infix_cons, ih, pair_infix_cons, apart_cons]
    have (h : c = a) : (squeeze (some c) rest).head? = some b ↔
        rest.head? = some b ∨ GapBefore b rest :=
      head?_squeeze_eq_some_iff hb (by simp [h, ht])
    tauto

theorem mem_of_mem_squeeze (h : c ∈ squeeze before cs) : c = ' ' ∨ c ∈ cs := by
  fun_induction squeeze before cs
  case case1 => cases h
  case case2 before d rest hd next ih =>
    rcases List.mem_append.mp h with h | h
    case inl => left; grind
    case inr =>
      have hsub := (List.dropWhile_sublist isWhiteSpace (l := rest)).subset
      exact (ih h).imp_right fun h => List.mem_cons_of_mem _ (hsub h)
  case case3 before d rest hd ih =>
    rcases List.mem_cons.mp h with rfl | h
    case inl => exact .inr List.mem_cons_self
    case inr => exact (ih h).imp_right (List.mem_cons_of_mem _)

end Squeeze

theorem dot_not_mem_piece (h : piece ∈ pieces cs) : '.' ∉ piece := by
  fun_induction pieces cs generalizing piece
  case case1 =>
    rw [List.mem_singleton.mp h]
    exact List.not_mem_nil
  case case2 ih =>
    rcases List.mem_cons.mp h with rfl | h
    case inl => exact List.not_mem_nil
    case inr => exact ih h
  case case3 c rest hs ih =>
    obtain ⟨first, more, hp⟩ := exists_pieces rest
    rw [hp] at h ih
    rcases List.mem_cons.mp h with rfl | h
    case inl =>
      have hc := (afterSeparator?_eq_none_iff.mp hs).1
      exact List.not_mem_cons_of_ne_of_not_mem hc.symm (ih List.mem_cons_self)
    case inr => exact ih (List.mem_cons_of_mem _ h)

theorem pair_not_infix_piece (hp : IsPair a b) (h : piece ∈ pieces cs) : ¬[a, b] <:+: piece := by
  fun_induction pieces cs generalizing piece
  case case1 =>
    rw [List.mem_singleton.mp h]
    simp
  case case2 ih =>
    rcases List.mem_cons.mp h with rfl | h
    case inl => simp
    case inr => exact ih h
  case case3 c rest hs ih =>
    obtain ⟨first, more, hpieces⟩ := exists_pieces rest
    rw [hpieces] at h ih
    rcases List.mem_cons.mp h with rfl | h
    case inl =>
      rw [pair_infix_cons]
      rintro (⟨hc, hb⟩ | hfirst)
      case inl =>
        rcases head?_of_pieces hpieces with hh | ⟨rfl, -⟩
        case inl => exact (afterSeparator?_eq_none_iff.mp hs).2 a b hp hc (hh ▸ hb)
        case inr => cases hb
      case inr => exact ih List.mem_cons_self hfirst
    case inr => exact ih (List.mem_cons_of_mem _ h)

variable {text seg : List Char} {s : Symbol}

structure IsSegment (seg : List Char) : Prop where
  ne_nil : seg ≠ []
  trim_eq : trim seg = seg
  dot_not_mem : '.' ∉ seg

theorem isSegment_of_mem (h : seg ∈ segmentsOf text) : IsSegment seg := by
  obtain ⟨hne, piece, hp, rfl⟩ := mem_segmentsOf_iff.mp h
  refine ⟨hne, trim_trim _, fun hdot => ?_⟩
  rcases mem_of_mem_squeeze ((trim_isInfix _).subset hdot) with h | h
  case inl => cases h
  case inr => exact dot_not_mem_piece hp h

theorem exists_pair_infix_iff (hp : IsPair a b) :
    (∃ seg ∈ segmentsOf text, [a, b] <:+: seg) ↔ ∃ piece ∈ pieces (trim text), Apart a b piece := by
  have ha : isWhiteSpace a = false ∧ isWhiteSpace b = false ∧ isTextChar a = false := by
    rcases hp with ⟨rfl, rfl⟩ | ⟨rfl, rfl⟩ <;> decide
  obtain ⟨ha, hb, ht⟩ := ha
  have hpair : ∀ c ∈ [a, b], isWhiteSpace c = false := by simp [ha, hb]
  have hiff {piece} (h : piece ∈ pieces (trim text)) :
      [a, b] <:+: trim (squeeze none piece) ↔ Apart a b piece := by
    rw [infix_trim_iff hpair, pair_infix_squeeze_iff ha hb ht,
      or_iff_right (pair_not_infix_piece hp h)]
  constructor
  case mp =>
    rintro ⟨seg, hseg, hin⟩
    obtain ⟨-, piece, h, rfl⟩ := mem_segmentsOf_iff.mp hseg
    exact ⟨piece, h, (hiff h).mp hin⟩
  case mpr =>
    rintro ⟨piece, h, hapart⟩
    have hin := (hiff h).mpr hapart
    have hne : trim (squeeze none piece) ≠ [] := by
      rintro hnil
      simp [hnil] at hin
    exact ⟨_, mem_segmentsOf_iff.mpr ⟨hne, piece, h, rfl⟩, hin⟩

theorem isSegment_of_ofText? (h : ofText? text = some s) :
    s.segments ≠ [] ∧ ∀ seg ∈ s.segments, IsSegment seg.toList := by
  rw [ofText?_eq, normalize?_eq_some_iff] at h
  obtain ⟨hne, hs⟩ := h
  refine ⟨by simpa [hs] using hne, fun seg hseg => ?_⟩
  rw [hs] at hseg
  obtain ⟨cs, hcs, rfl⟩ := List.mem_map.mp hseg
  rw [String.toList_ofList]
  exact isSegment_of_mem hcs

-- A symbol that is read off a text has segments, and they are what segments are like. One of the
-- longer separators stands in a segment exactly if its characters stood apart in the text.
theorem segments_in_normal_form (h : ofText? text = some s) : s.segments ≠ [] ∧
    (∀ seg ∈ s.segments, IsSegment seg.toList) ∧ ∀ a b, IsPair a b →
      ((∃ seg ∈ s.segments, [a, b] <:+: seg.toList) ↔
        ∃ piece ∈ pieces (trim (readPart text)), Apart a b piece) := by
  obtain ⟨hne, hseg⟩ := isSegment_of_ofText? h
  refine ⟨hne, hseg, fun a b hp => ?_⟩
  rw [ofText?_eq, normalize?_eq_some_iff] at h
  rw [← exists_pair_infix_iff hp, h.2]
  simp

theorem segments_in_normal_form_level :
    let text := " App::log: :level (int) ".toList
    let s : Symbol := ⟨["App", "log::level"]⟩
    ofText? text = some s ∧ (∀ seg ∈ s.segments, IsSegment seg.toList) ∧
      (∃ piece ∈ pieces (trim (readPart text)), Apart ':' ':' piece) ∧
      ¬∃ piece ∈ pieces (trim (readPart text)), Apart '-' '>' piece := by
  intro text s
  have h : ofText? text = some s := by decide +kernel
  obtain ⟨-, hseg, hpair⟩ := segments_in_normal_form h
  refine ⟨h, hseg, (hpair ':' ':' (.inl ⟨rfl, rfl⟩)).mp ⟨"log::level", ?_, ?_⟩, ?_⟩
  · decide
  · decide
  · rw [← hpair '-' '>' (.inr ⟨rfl, rfl⟩)]
    decide

theorem colons_in_segment :
    ofText? "a: :b".toList = some ⟨["a::b"]⟩ ∧ [':', ':'] <:+: "a::b".toList := by
  decide +kernel

end SourceDocs.Symbol

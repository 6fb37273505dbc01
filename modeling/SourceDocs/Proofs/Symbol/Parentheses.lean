import SourceDocs.Proofs.Symbol.Pieces
import SourceDocs.Proofs.TitleParameters

namespace SourceDocs.Symbol

open Text Unicode

variable {c : Char} {cs text name block piece : List Char} {before : Option Char}

-- The text ends with parentheses, white space aside, and spells a symbol without them.
def LeavesOut (text name : List Char) : Prop :=
  ∃ block, trimEnd text = name ++ block ∧ IsBlock block ∧ block.head? = some '(' ∧
    (normalize? name).isSome

theorem normalize?_trimEnd (cs : List Char) : normalize? (trimEnd cs) = normalize? cs := by
  rw [normalize?, trim_trimEnd, normalize?]

theorem normalize?_nil : normalize? [] = none := by
  have htrim : trim [] = [] := rfl
  simp [normalize?_eq, segmentsOf, segment, htrim]

theorem parametersAt_of_block (ht : trimEnd text = name ++ block) (hb : IsBlock block)
    (hh : block.head? = some '(') (hn : name ≠ []) :
    ParametersAt text (String.ofList name).utf8ByteSize name block where
  trimEnd_eq := ht
  utf8ByteSize_eq := rfl
  pos := utf8ByteSize_ofList_pos.mpr hn
  isBlock := hb
  not_operator h := by
    rw [hh] at h
    exact absurd h.1 (by decide)

theorem splitParentheses_of_block (ht : trimEnd text = name ++ block) (hb : IsBlock block)
    (hh : block.head? = some '(') (hn : name ≠ []) :
    ∃ params, splitParentheses text = (trimEnd name, some params) := by
  obtain ⟨after, htext, hs⟩ := (parametersAt_of_block ht hb hh hn).splitParameters_eq
  have hafter : after.head? = some '(' := by
    obtain ⟨blanks, hblanks, -⟩ := exists_trimEnd text
    rw [ht, List.append_assoc] at hblanks
    rw [List.append_cancel_left (htext.symm.trans hblanks), List.head?_append, hh]
    rfl
  exact ⟨after, by rw [splitParentheses, hs]; simp [hafter]⟩

theorem LeavesOut.ofText?_eq (h : LeavesOut text name) : ofText? text = normalize? name := by
  obtain ⟨block, ht, hb, hh, hn⟩ := h
  have hne : name ≠ [] := by
    rintro rfl
    rw [normalize?_nil] at hn
    cases hn
  obtain ⟨params, hs⟩ := splitParentheses_of_block ht hb hh hne
  rw [← normalize?_trimEnd] at hn ⊢
  rw [Symbol.ofText?_eq, readPart, hs, if_pos hn]

theorem exists_block_of_splitParentheses {params : List Char}
    (h : splitParentheses text = (name, some params)) : ∃ before block, name = trimEnd before ∧
      trimEnd text = before ++ block ∧ IsBlock block ∧ block.head? = some '(' := by
  unfold splitParentheses splitParameters at h
  cases hs : beforeParameters? text
  case none => simp [hs] at h
  case some before =>
    simp only [hs] at h
    split at h
    case isFalse => cases h
    case isTrue hhead =>
      cases h
      obtain ⟨block, ht, -, hb, -⟩ := beforeParameters?_eq_some_iff.mp hs
      obtain ⟨blanks, hblanks, -⟩ := exists_trimEnd text
      obtain ⟨opener, ho⟩ := hb.exists_head?
      rw [hblanks, ht, List.append_assoc, List.drop_left, List.head?_append, ho] at hhead
      exact ⟨before, block, rfl, ht, hb, ho.trans hhead⟩

theorem ofText?_of_not_leavesOut (h : ∀ name, ¬LeavesOut text name) :
    ofText? text = normalize? text := by
  rw [ofText?_eq, readPart]
  split
  case isFalse => rfl
  case isTrue hn =>
    rcases splitParentheses_cases text with hs | ⟨name, params, hs⟩
    case inl => rw [hs]
    case inr =>
      obtain ⟨before, block, rfl, ht, hb, hh⟩ := exists_block_of_splitParentheses hs
      rw [hs, normalize?_trimEnd] at hn
      exact absurd ⟨block, ht, hb, hh, hn⟩ (h before)

theorem count_pieces (cs : List Char) : (pieces cs).flatten.count '(' = cs.count '(' := by
  fun_induction pieces cs
  case case1 => rfl
  case case2 c rest rest' hs ih =>
    rw [List.flatten_cons, List.nil_append, ih]
    rcases afterSeparator?_eq_some_iff.mp hs with h | ⟨a, b, ⟨rfl, rfl⟩ | ⟨rfl, rfl⟩, h⟩ <;>
      rw [h] <;> simp
  case case3 c rest hs ih =>
    obtain ⟨piece, more, hp⟩ := exists_pieces rest
    rw [hp] at ih ⊢
    simp [← ih, List.count_cons]

theorem count_squeeze : (squeeze before cs).count '(' = cs.count '(' := by
  fun_induction squeeze before cs
  case case1 => rfl
  case case2 before c rest hc next ih =>
    obtain ⟨blanks, hcs, hblanks⟩ := exists_blanks hc rest
    rw [hcs, List.count_append, List.count_append, ih, count_eq_zero_of_white hblanks (by decide)]
    split <;> rfl
  case case3 before c rest hc ih => rw [List.count_cons, List.count_cons, ih]

theorem count_segment (cs : List Char) : (segment cs).flatten.count '(' = cs.count '(' := by
  rw [← count_trim cs (by decide), segment]
  split <;> simp_all

theorem count_segmentsOf (text : List Char) :
    (segmentsOf text).flatten.count '(' = text.count '(' := by
  rw [← count_trim text (by decide), ← count_pieces (trim text), segmentsOf]
  induction pieces (trim text)
  case nil => rfl
  case cons piece more ih => simp [ih, count_segment, count_squeeze]

theorem LeavesOut.normalize?_ne (h : LeavesOut text name) : normalize? name ≠ normalize? text := by
  obtain ⟨block, ht, hb, hh, hn⟩ := h
  intro heq
  obtain ⟨s, hs⟩ := Option.isSome_iff_exists.mp hn
  have hname := (normalize?_eq_some_iff.mp hs).2
  have htext := (normalize?_eq_some_iff.mp (heq ▸ hs)).2
  have hseg : segmentsOf name = segmentsOf text :=
    List.map_injective_iff.mpr (fun _ _ => String.ofList_inj.mp) (hname.symm.trans htext)
  have hcount : name.count '(' = (name ++ block).count '(' := by
    rw [← count_segmentsOf, hseg, count_segmentsOf, ← ht, count_trimEnd text (by decide)]
  have hpos : 0 < block.count '(' := List.count_pos_iff.mpr (List.mem_of_head? hh)
  rw [List.count_append] at hcount
  omega

theorem ofText?_eq_normalize?_iff :
    ofText? text = normalize? text ↔ ¬∃ name, LeavesOut text name := by
  constructor
  case mp =>
    rintro h ⟨name, hl⟩
    exact hl.normalize?_ne (hl.ofText?_eq.symm.trans h)
  case mpr => exact fun h => ofText?_of_not_leavesOut (not_exists.mp h)

end SourceDocs.Symbol

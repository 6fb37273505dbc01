import Mathlib
import SourceDocs.Text.Trim

namespace SourceDocs.Text

open Unicode

variable {c : Char} {cs : List Char}

theorem isWhiteSpace_plain (h : c.isAlphanum ∨ c = '_') : isWhiteSpace c = false := by
  rcases h with h | rfl
  case inr => decide
  case inl =>
    have h : (65 ≤ c.toNat ∧ c.toNat ≤ 90 ∨ 97 ≤ c.toNat ∧ c.toNat ≤ 122) ∨
        48 ≤ c.toNat ∧ c.toNat ≤ 57 := by
      simpa [Char.isAlphanum, Char.isAlpha, Char.isUpper, Char.isLower, Char.isDigit,
        UInt32.le_iff_toNat_le] using h
    simp only [isWhiteSpace, Bool.or_eq_false_iff, Bool.and_eq_false_iff, decide_eq_false_iff_not,
      beq_eq_false_iff_ne]
    omega

theorem exists_trimEnd (cs : List Char) : ∃ blanks, cs = trimEnd cs ++ blanks ∧
    ∀ c ∈ blanks, isWhiteSpace c = true := by
  refine ⟨(cs.reverse.takeWhile isWhiteSpace).reverse, ?_, fun c hc =>
    List.mem_takeWhile_imp (List.mem_reverse.mp hc)⟩
  rw [trimEnd, dropEndWhile, ← List.reverse_append, List.takeWhile_append_dropWhile,
    List.reverse_reverse]

theorem exists_trim (cs : List Char) : ∃ front back, cs = front ++ trim cs ++ back ∧
    (∀ c ∈ front, isWhiteSpace c = true) ∧ ∀ c ∈ back, isWhiteSpace c = true := by
  obtain ⟨back, hb, hback⟩ := exists_trimEnd (trimStart cs)
  refine ⟨cs.takeWhile isWhiteSpace, back, ?_, fun _ => List.mem_takeWhile_imp, hback⟩
  rw [List.append_assoc, trim, ← hb, trimStart, List.takeWhile_append_dropWhile]

theorem head?_trimStart (cs : List Char) : ∀ c ∈ (trimStart cs).head?, isWhiteSpace c = false := by
  intro c hc
  have := List.head?_dropWhile_not isWhiteSpace cs
  rw [trimStart] at hc
  simpa [Option.mem_def.mp hc] using this

theorem getLast?_trimEnd (cs : List Char) :
    ∀ c ∈ (trimEnd cs).getLast?, isWhiteSpace c = false := by
  intro c hc
  rw [trimEnd, dropEndWhile, List.getLast?_reverse] at hc
  exact head?_trimStart cs.reverse c hc

theorem trimStart_eq_self (h : ∀ c ∈ cs.head?, isWhiteSpace c = false) : trimStart cs = cs := by
  cases cs
  case nil => rfl
  case cons c cs => simp [trimStart, h c rfl]

theorem trimEnd_eq_self (h : ∀ c ∈ cs.getLast?, isWhiteSpace c = false) : trimEnd cs = cs := by
  refine List.rdropWhile_eq_self_iff.mpr fun hcs => ?_
  simp [h _ (List.getLast?_eq_getLast_of_ne_nil hcs)]

theorem trim_eq_self (hh : ∀ c ∈ cs.head?, isWhiteSpace c = false)
    (hl : ∀ c ∈ cs.getLast?, isWhiteSpace c = false) : trim cs = cs := by
  rw [trim, trimStart_eq_self hh, trimEnd_eq_self hl]

theorem head?_trim (cs : List Char) : ∀ c ∈ (trim cs).head?, isWhiteSpace c = false := by
  intro c hc
  obtain ⟨rest, hr⟩ : trim cs <+: trimStart cs := List.rdropWhile_prefix ..
  refine head?_trimStart cs c ?_
  rw [← hr, List.head?_append, Option.mem_def.mp hc]
  rfl

theorem trim_isInfix (cs : List Char) : trim cs <:+: cs := by
  obtain ⟨front, back, hcs, -⟩ := exists_trim cs
  exact ⟨front, back, hcs.symm⟩

theorem trim_trim (cs : List Char) : trim (trim cs) = trim cs :=
  trim_eq_self (head?_trim cs) (getLast?_trimEnd (trimStart cs))

theorem trimEnd_append_white {blanks : List Char} (hb : ∀ c ∈ blanks, isWhiteSpace c = true) :
    trimEnd (cs ++ blanks) = trimEnd cs := by
  rw [trimEnd, dropEndWhile, List.reverse_append, List.dropWhile_append_of_pos (by simpa using hb)]
  rfl

theorem trim_append_white {blanks : List Char} (hb : ∀ c ∈ blanks, isWhiteSpace c = true) :
    trim (cs ++ blanks) = trim cs := by
  rw [trim, trimStart, List.dropWhile_append]
  split
  case isTrue h =>
    have hcs : trimStart cs = [] := List.isEmpty_iff.mp h
    rw [trim, hcs, List.dropWhile_eq_nil_iff.mpr hb]
  case isFalse => exact trimEnd_append_white hb

theorem trim_trimEnd (cs : List Char) : trim (trimEnd cs) = trim cs := by
  obtain ⟨blanks, hcs, hb⟩ := exists_trimEnd cs
  conv_rhs => rw [hcs, trim_append_white hb]

theorem not_mem_of_white {blanks : List Char} (hb : ∀ c ∈ blanks, isWhiteSpace c = true)
    (hc : isWhiteSpace c = false) : c ∉ blanks := by
  intro h
  rw [hb c h] at hc
  cases hc

theorem count_eq_zero_of_white {blanks : List Char} (hb : ∀ c ∈ blanks, isWhiteSpace c = true)
    (hc : isWhiteSpace c = false) : blanks.count c = 0 :=
  List.count_eq_zero.mpr (not_mem_of_white hb hc)

theorem count_trimEnd (cs : List Char) (hc : isWhiteSpace c = false) :
    (trimEnd cs).count c = cs.count c := by
  obtain ⟨blanks, hcs, hb⟩ := exists_trimEnd cs
  conv_rhs => rw [hcs, List.count_append, count_eq_zero_of_white hb hc, Nat.add_zero]

theorem count_trim (cs : List Char) (hc : isWhiteSpace c = false) :
    (trim cs).count c = cs.count c := by
  obtain ⟨front, back, hcs, hf, hb⟩ := exists_trim cs
  conv_rhs => rw [hcs]
  simp [count_eq_zero_of_white hf hc, count_eq_zero_of_white hb hc]

section Word

variable {word blanks : List Char} (hw : ∀ c ∈ word, isWhiteSpace c = false)
  (hb : ∀ c ∈ blanks, isWhiteSpace c = true)

include hw hb

theorem eq_nil_of_subset_white {part : List Char} (hp : part ⊆ word) (h : part ⊆ blanks) :
    part = [] :=
  List.eq_nil_iff_forall_not_mem.mpr fun c hc => not_mem_of_white hb (hw c (hp hc)) (h hc)

theorem infix_append_white : word <:+: cs ++ blanks ↔ word <:+: cs := by
  refine ⟨fun h => ?_, fun h => h.trans (List.prefix_append ..).isInfix⟩
  rcases List.infix_append_iff.mp h with h | h | ⟨part, rest, rfl, hp, hr⟩
  · exact h
  · rw [eq_nil_of_subset_white hw hb (List.Subset.refl _) h.subset]
    exact List.nil_infix
  · rw [eq_nil_of_subset_white hw hb (List.subset_append_right ..) hr.subset, List.append_nil]
    exact hp.isInfix

theorem infix_white_append : word <:+: blanks ++ cs ↔ word <:+: cs := by
  refine ⟨fun h => ?_, fun h => h.trans (List.suffix_append ..).isInfix⟩
  rcases List.infix_append_iff.mp h with h | h | ⟨rest, part, rfl, hr, hp⟩
  · rw [eq_nil_of_subset_white hw hb (List.Subset.refl _) h.subset]
    exact List.nil_infix
  · exact h
  · rw [eq_nil_of_subset_white hw hb (List.subset_append_left ..) hr.subset, List.nil_append]
    exact hp.isInfix

end Word

theorem infix_trim_iff {word : List Char} (hw : ∀ c ∈ word, isWhiteSpace c = false) :
    word <:+: trim cs ↔ word <:+: cs := by
  obtain ⟨front, back, hcs, hf, hb⟩ := exists_trim cs
  conv_rhs => rw [hcs, infix_append_white hw hb, infix_white_append hw hf]

end SourceDocs.Text

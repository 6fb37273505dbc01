import Mathlib.Logic.Basic
import SourceDocs.Symbol.Class

namespace SourceDocs.Class

variable {a b c : Class}

theorem same_iff : a.same b = true ↔ a.key = b.key ∧
    (a.caseSensitive = true → b.caseSensitive = true → a.symbol = b.symbol) := by
  have hfold (h : a.symbol = b.symbol) : a.foldedSegments = b.foldedSegments := by
    rw [foldedSegments, foldedSegments, h]
  simp only [same, key, Prod.mk.injEq, Bool.and_eq_true, decide_eq_true_eq, and_assoc]
  refine and_congr_right fun _ => ?_
  split
  case isTrue hs =>
    simp only [hs, decide_eq_true_eq, forall_const]
    exact ⟨fun h => ⟨hfold h, h⟩, fun h => h.2⟩
  case isFalse hs =>
    rw [decide_eq_true_eq]
    exact ⟨fun h => ⟨h, fun ha hb => absurd ⟨ha, hb⟩ hs⟩, fun h => h.1⟩

theorem same_self (a : Class) : a.same a = true :=
  same_iff.mpr ⟨rfl, fun _ _ => rfl⟩

theorem same_comm (a b : Class) : a.same b = b.same a := by
  rw [Bool.eq_iff_iff, same_iff, same_iff, eq_comm]
  exact and_congr_right fun _ => ⟨fun h hb ha => (h ha hb).symm, fun h ha hb => (h hb ha).symm⟩

-- The class in the middle stands for the symbol only if it regards case itself.
theorem same_trans_iff (hab : a.same b = true) (hbc : b.same c = true) : a.same c = true ↔
    (b.caseSensitive = false → a.caseSensitive = true → c.caseSensitive = true →
      a.symbol = c.symbol) := by
  obtain ⟨hkey, hsymbol⟩ := same_iff.mp hab
  obtain ⟨hkey', hsymbol'⟩ := same_iff.mp hbc
  rw [same_iff, and_iff_right (hkey.trans hkey')]
  constructor
  case mp => exact fun h _ => h
  case mpr =>
    intro h ha hc
    cases hb : b.caseSensitive
    case false => exact h hb ha hc
    case true => exact (hsymbol ha hb).trans (hsymbol' hb hc)

-- To be one class is reflexive and symmetric, and a table looks up one class alike. It is passed on
-- through a third class, unless only that one disregards case and the symbols differ.
theorem identity_laws (a b c : Class) : a.same a = true ∧ a.same b = b.same a ∧
    (a.same b = true → a.key = b.key) ∧
    (a.same b = true → b.same c = true → (a.same c = true ↔
      (b.caseSensitive = false → a.caseSensitive = true → c.caseSensitive = true →
        a.symbol = c.symbol))) :=
  ⟨same_self a, same_comm a b, fun h => (same_iff.mp h).1, same_trans_iff⟩

-- The last class disregards case, so it does not count that the first one regards it.
theorem identity_laws_sharp :
    let a : Class := ⟨"class", ⟨["Größe"]⟩, true⟩
    let b : Class := ⟨"class", ⟨["GRÖẞE"]⟩, false⟩
    let c : Class := ⟨"class", ⟨["größe"]⟩, false⟩
    a.same b = true ∧ b.same c = true ∧ a.key = b.key ∧ a.same c = true := by
  intro a b c
  have hab : a.same b = true := by decide +kernel
  have hbc : b.same c = true := by decide +kernel
  obtain ⟨-, -, hkey, htrans⟩ := identity_laws a b c
  exact ⟨hab, hbc, hkey hab, (htrans hab hbc).mpr fun _ _ => nofun⟩

theorem same_not_trans :
    let a : Class := ⟨"class", ⟨["Widget"]⟩, true⟩
    let b : Class := ⟨"class", ⟨["widget"]⟩, false⟩
    let c : Class := ⟨"class", ⟨["widget"]⟩, true⟩
    a.same b = true ∧ b.same c = true ∧ a.same c = false := by
  decide +kernel

end SourceDocs.Class

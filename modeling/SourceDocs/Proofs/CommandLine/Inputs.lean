import SourceDocs.CommandLine.Run
import SourceDocs.Proofs.Files.Path

namespace SourceDocs.CommandLine.Job

open Files

def InOrder (paths : List String) : Prop :=
  paths.Pairwise (Path.key · ≤ Path.key ·)

theorem mem_insertPath {p q : String} {paths : List String} :
    q ∈ insertPath p paths ↔ q = p ∨ q ∈ paths := by
  fun_induction insertPath p paths
  case case1 => simp
  case case2 => simp
  case case3 r rest hlt ih =>
    simp only [List.mem_cons, ih]
    exact or_left_comm

theorem inOrder_insertPath {p : String} {paths : List String} (h : InOrder paths) :
    InOrder (insertPath p paths) := by
  fun_induction insertPath p paths
  case case1 => exact List.pairwise_singleton _ _
  case case2 r rest hlt =>
    have hpr : Path.key p ≤ Path.key r := le_of_lt ((Path.lt_iff p r).mp hlt)
    refine .cons (fun q hq => ?_) h
    rcases List.mem_cons.mp hq with rfl | hq
    case inl => exact hpr
    case inr => exact hpr.trans (List.rel_of_pairwise_cons h hq)
  case case3 r rest hlt ih =>
    have hrp : Path.key r ≤ Path.key p := le_of_not_gt fun h => hlt ((Path.lt_iff p r).mpr h)
    refine .cons (fun q hq => ?_) (ih h.of_cons)
    rcases mem_insertPath.mp hq with rfl | hq
    case inl => exact hrp
    case inr => exact List.rel_of_pairwise_cons h hq

-- What is behind a path in the order stays there if some paths are left out.
theorem insertPath_filter_of_lt {p : String} {paths : List String}
    (h : ∀ q ∈ paths, Path.key p < Path.key q) (keep : String → Bool) :
    insertPath p (paths.filter keep) = p :: paths.filter keep := by
  cases hf : paths.filter keep
  case nil => rfl
  case cons q rest =>
    have hq : q ∈ paths := (List.mem_filter.mp (hf ▸ List.mem_cons_self)).1
    rw [insertPath, if_pos ((Path.lt_iff p q).mpr (h q hq))]

-- By the recursion of the insertion. Where it stops, all that follows lies behind the new path.
theorem filter_insertPath {p : String} {paths : List String} (h : InOrder paths)
    (keep : String → Bool) :
    (insertPath p paths).filter keep =
      if keep p then insertPath p (paths.filter keep) else paths.filter keep := by
  fun_induction insertPath p paths
  case case1 => cases hk : keep p <;> simp [hk, insertPath]
  case case2 q rest hlt =>
    have hbehind : ∀ r ∈ q :: rest, Path.key p < Path.key r := by
      intro r hr
      have hpq := (Path.lt_iff p q).mp hlt
      rcases List.mem_cons.mp hr with rfl | hr
      case inl => exact hpq
      case inr => exact hpq.trans_le (List.rel_of_pairwise_cons h hr)
    rw [insertPath_filter_of_lt hbehind, List.filter_cons]
  case case3 q rest hlt ih =>
    rw [List.filter_cons, List.filter_cons, ih h.of_cons]
    cases keep q
    case false => rfl
    case true =>
      cases keep p
      case false => rfl
      case true => simp [insertPath, hlt]

theorem mem_of_mem_dropRepeated {p : String} {paths : List String}
    (h : p ∈ dropRepeated paths) : p ∈ paths := by
  fun_induction dropRepeated paths
  case case1 => exact h
  case case2 => exact h
  case case3 q r rest hs ih =>
    rcases List.mem_cons.mp (ih h) with rfl | h
    case inl => exact .head _
    case inr => exact .tail _ (.tail _ h)
  case case4 q r rest hs ih =>
    rcases List.mem_cons.mp h with rfl | h
    case inl => exact .head _
    case inr => exact .tail _ (ih h)

theorem dropRepeated_cons {p : String} {paths : List String}
    (h : ∀ q ∈ paths, Path.key p < Path.key q) :
    dropRepeated (p :: paths) = p :: dropRepeated paths := by
  cases paths
  case nil => simp [dropRepeated]
  case cons q rest =>
    have hne : ¬Path.same p q = true := fun hs =>
      (h q (.head _)).ne ((Path.same_iff p q).mp hs)
    rw [dropRepeated, if_neg hne]

-- All spellings of a path stand next to each other, and are kept or left out together.
theorem filter_dropRepeated {paths : List String} (h : InOrder paths) {keep : String → Bool}
    (hkeep : ∀ p q, Path.same p q = true → keep p = keep q) :
    (dropRepeated paths).filter keep = dropRepeated (paths.filter keep) := by
  fun_induction dropRepeated paths
  case case1 => simp [dropRepeated]
  case case2 p => cases hp : keep p <;> simp [hp, dropRepeated]
  case case3 p q rest hs ih =>
    have horder : InOrder (p :: rest) := h.sublist (.cons_cons p (.cons q (.refl rest)))
    rw [ih horder]
    cases hp : keep p
    case false => simp [hp, ← hkeep p q hs]
    case true => simp [hp, ← hkeep p q hs, dropRepeated, hs]
  case case4 p q rest hs ih =>
    have hbehind : ∀ r ∈ (q :: rest).filter keep, Path.key p < Path.key r := by
      intro r hr
      have hr := (List.mem_filter.mp hr).1
      have hne : Path.key p ≠ Path.key q := fun he => hs ((Path.same_iff p q).mpr he)
      have hlt := lt_of_le_of_ne (List.rel_of_pairwise_cons h (.head _)) hne
      rcases List.mem_cons.mp hr with rfl | hr
      case inl => exact hlt
      case inr => exact hlt.trans_le (List.rel_of_pairwise_cons h.of_cons hr)
    cases hp : keep p
    case false => simp only [List.filter_cons, hp, ih h.of_cons, Bool.false_eq_true, if_false]
    case true =>
      rw [List.filter_cons_of_pos hp, List.filter_cons_of_pos hp, ih h.of_cons,
        dropRepeated_cons hbehind]

-- The order of what is sorted so far carries the induction, as insertion needs it.
theorem sorted_filter (keep : String → Bool) (paths : List String) {sorted : List String}
    (h : InOrder sorted) :
    InOrder (paths.foldl (fun sorted p => insertPath p sorted) sorted) ∧
      (paths.foldl (fun sorted p => insertPath p sorted) sorted).filter keep =
        (paths.filter keep).foldl (fun sorted p => insertPath p sorted) (sorted.filter keep) := by
  induction paths generalizing sorted
  case nil => exact ⟨h, rfl⟩
  case cons p paths hi =>
    have ⟨horder, hfilter⟩ := hi (@inOrder_insertPath p sorted h)
    refine ⟨horder, ?_⟩
    rw [List.foldl_cons, hfilter, filter_insertPath h]
    cases hp : keep p <;> simp [hp]

theorem sortPaths_filter (paths : List String) {keep : String → Bool}
    (hkeep : ∀ p q, Path.same p q = true → keep p = keep q) :
    sortPaths (paths.filter keep) = (sortPaths paths).filter keep := by
  have ⟨horder, hfilter⟩ := sorted_filter keep paths List.Pairwise.nil
  rw [sortPaths, sortPaths, filter_dropRepeated horder hkeep, hfilter, List.filter_nil]

theorem mem_of_mem_sortPaths {p : String} {paths : List String} (h : p ∈ sortPaths paths) :
    p ∈ paths := by
  have hmem (paths sorted : List String)
      (h : p ∈ paths.foldl (fun sorted p => insertPath p sorted) sorted) :
      p ∈ paths ∨ p ∈ sorted := by
    induction paths generalizing sorted
    case nil => exact .inr h
    case cons q paths hi =>
      rcases hi _ h with h | h
      case inl => exact .inl (.tail _ h)
      case inr =>
        rcases mem_insertPath.mp h with rfl | h
        case inl => exact .inl (.head _)
        case inr => exact .inr h
  simpa using hmem paths [] (mem_of_mem_dropRepeated h)

end SourceDocs.CommandLine.Job

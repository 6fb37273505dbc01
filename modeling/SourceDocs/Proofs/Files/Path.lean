import Mathlib
import SourceDocs.Files.Path

namespace SourceDocs

namespace Text

theorem splitBy_ne_nil (p : Char → Bool) (cs : List Char) : splitBy p cs ≠ [] := by
  cases cs
  case nil => simp [Text.splitBy]
  case cons c cs =>
    rw [splitBy]
    split
    case h_1 => simp
    case h_2 => split <;> simp

variable {p : Char → Bool}

theorem splitBy_eq_self {cs : List Char} (h : ∀ c ∈ cs, p c = false) : splitBy p cs = [cs] := by
  induction cs
  case nil => rfl
  case cons c cs hi => simp [splitBy, hi fun d hd => h d (.tail _ hd), h c (.head _)]

-- A separator ends one piece and begins another, so that a text is cut there whatever surrounds it.
theorem splitBy_append_cons {c : Char} (hc : p c = true) (cs ds : List Char) :
    splitBy p (cs ++ c :: ds) = splitBy p cs ++ splitBy p ds := by
  induction cs
  case nil =>
    obtain ⟨piece, pieces, hp⟩ := List.exists_cons_of_ne_nil (splitBy_ne_nil p ds)
    simp [splitBy, hp, hc]
  case cons d cs hi =>
    obtain ⟨piece, pieces, hp⟩ := List.exists_cons_of_ne_nil (splitBy_ne_nil p cs)
    rw [hp] at hi
    simp only [List.cons_append, splitBy, hi, hp]
    split <;> rfl

theorem not_of_mem_splitBy {cs piece : List Char} (h : piece ∈ splitBy p cs) :
    ∀ c ∈ piece, p c = false := by
  induction cs generalizing piece
  case nil => simp_all [splitBy]
  case cons c cs hi =>
    obtain ⟨first, pieces, hp⟩ := List.exists_cons_of_ne_nil (splitBy_ne_nil p cs)
    simp only [splitBy, hp] at h hi
    split at h
    case isTrue =>
      rcases List.mem_cons.mp h with rfl | h
      case inl => simp
      case inr => exact hi h
    case isFalse hc =>
      rcases List.mem_cons.mp h with rfl | h
      case inl =>
        intro d hd
        rcases List.mem_cons.mp hd with rfl | hd
        case inl => simpa using hc
        case inr => exact hi (.head _) d hd
      case inr => exact hi (.tail _ h)

end Text

namespace Files

def Component.key (c : Component) : ℕ ×ₗ String :=
  toLex (c.rank, c.name)

-- Components compare as pairs of their rank and their name.
theorem Component.lt_iff (a b : Component) : a.lt b = true ↔ a.key < b.key := by
  simp [lt, key, Prod.Lex.lt_iff]

theorem Component.key_injective : Function.Injective Component.key := by
  intro a b h
  obtain ⟨hrank, hname⟩ := Prod.mk.inj (toLex.injective h)
  cases a <;> cases b <;> simp_all [rank, name]

namespace Path

-- Paths are told apart and ordered by their components.
def key (path : String) : List (ℕ ×ₗ String) :=
  (components path).map Component.key

theorem same_iff (p q : String) : same p q = true ↔ key p = key q := by
  simp [same, key, Component.key_injective.list_map.eq_iff]

theorem go_iff (xs ys : List Component) :
    lt.go xs ys = true ↔ xs.map Component.key < ys.map Component.key := by
  fun_induction lt.go xs ys
  case case1 => simp
  case case2 => simp
  case case3 => simp
  case case4 x xs y ys ih =>
    simp [Component.lt_iff, ih, List.cons_lt_cons_iff, Component.key_injective.eq_iff]

theorem lt_iff (p q : String) : lt p q = true ↔ key p < key q :=
  go_iff ..

theorem join_inj {directory a b : String} : join directory a = join directory b ↔ a = b := by
  unfold join
  split
  case isTrue => simp [← String.toList_inj]
  case isFalse => simp [← String.toList_inj]

theorem slash_notMem_outputName (path : String) : '/' ∉ (outputName path).toList := by
  intro h
  obtain ⟨piece, hp⟩ := Option.ne_none_iff_exists'.mp
    (List.getLast?_eq_none_iff.not.mpr
      (Text.splitBy_ne_nil (fun c => c = '/' || c = '\\') path.toList))
  have := Text.not_of_mem_splitBy (List.mem_of_getLast? hp) '/' (by simpa [outputName, hp] using h)
  simp at this

-- All names that are joined to a directory lie behind the same components.
theorem exists_splitBy_join (directory : String) : ∃ pieces, ∀ name, '/' ∉ name.toList →
    Text.splitBy (· = '/') (join directory name).toList = pieces ++ [name.toList] := by
  have hname {name : String} (h : '/' ∉ name.toList) :
      Text.splitBy (· = '/') name.toList = [name.toList] :=
    Text.splitBy_eq_self fun c hc => by
      have : c ≠ '/' := fun hs => h (hs ▸ hc)
      simpa using this
  by_cases hempty : directory = ""
  case pos => exact ⟨[], fun name h => by simpa [join, hempty] using hname h⟩
  case neg =>
    by_cases hslash : directory.toList.getLast? = some '/'
    case pos =>
      obtain ⟨init, hinit⟩ := List.getLast?_eq_some_iff.mp hslash
      refine ⟨Text.splitBy (· = '/') init, fun name h => ?_⟩
      have hj : (join directory name).toList = init ++ '/' :: name.toList := by
        simp [join, hinit]
      rw [hj, Text.splitBy_append_cons (by simp), hname h]
    case neg =>
      refine ⟨Text.splitBy (· = '/') directory.toList, fun name h => ?_⟩
      have hj : (join directory name).toList = directory.toList ++ '/' :: name.toList := by
        simp [join, hslash, hempty]
      rw [hj, Text.splitBy_append_cons (by simp), hname h]

theorem head?_join (directory : String) {name : String} (h : '/' ∉ name.toList) :
    (join directory name).toList.head? = some '/' ↔ directory.toList.head? = some '/' := by
  by_cases hempty : directory = ""
  case pos =>
    subst hempty
    have : name.toList.head? ≠ some '/' := fun hh => h (List.mem_of_mem_head? hh)
    simpa [join] using this
  case neg =>
    obtain ⟨c, cs, hc⟩ := List.exists_cons_of_ne_nil (String.toList_eq_nil_iff.not.mpr hempty)
    unfold join
    split <;> simp [hc]

end Path
end Files
end SourceDocs

import Mathlib
import SourceDocs.Files.Tree
import SourceDocs.Proofs.Files.Path

namespace SourceDocs.Files.Tree

variable {tree after content : Tree} {names place other : List String}

theorem find?_append (tree : Tree) (xs ys : List String) :
    tree.find? (xs ++ ys) = (tree.find? xs).bind (·.find? ys) := by
  induction xs generalizing tree
  case nil => rfl
  case cons x xs hi =>
    simp only [List.cons_append, find?]
    cases tree.child? x
    case none => rfl
    case some sub => exact hi sub

theorem find?_of_not_isDirectory (h : tree.isDirectory = false) (hn : names ≠ []) :
    tree.find? names = none := by
  obtain ⟨name, names, rfl⟩ := List.exists_cons_of_ne_nil hn
  cases tree
  case directory => simp [isDirectory] at h
  all_goals rfl

-- There is nothing under what is no directory.
theorem isDirectory_of_find?_append {suffix : List String} {sub : Tree}
    (h : tree.find? (names ++ suffix) = some sub) (hs : suffix ≠ []) :
    (tree.find? names).any isDirectory = true := by
  rw [find?_append] at h
  obtain ⟨t, ht, h⟩ := Option.bind_eq_some_iff.mp h
  rw [ht, Option.any_some]
  by_contra hd
  simp [find?_of_not_isDirectory (by simpa using hd) hs] at h

theorem lookup_replace (name key : String) (entries : List (String × Tree)) :
    (replace name tree entries).lookup key =
      if key = name then some tree else entries.lookup key := by
  induction entries
  case nil => by_cases h : key = name <;> simp [replace, h]
  case cons e entries hi =>
    obtain ⟨n, t⟩ := e
    have hlookup (n : String) (t : Tree) (rest : List (String × Tree)) :
        ((n, t) :: rest).lookup key = if key = n then some t else rest.lookup key := by
      by_cases h : key = n
      case pos => simp [h]
      case neg => simp [List.lookup_cons, beq_eq_false_iff_ne.mpr h, h]
    by_cases hn : n = name
    case pos =>
      subst hn
      by_cases hk : key = n <;> simp [replace, hlookup, hk]
    case neg =>
      by_cases hk : key = n
      case pos => simp [replace, hn, hk]
      case neg => rw [replace, if_neg hn, hlookup, hlookup, if_neg hk, if_neg hk, hi]

theorem find?_put? (h : put? content names tree = some after) :
    after.find? names = some content := by
  induction names generalizing tree after
  case nil =>
    simp only [put?, Option.some.injEq] at h
    exact h ▸ rfl
  case cons name names hi =>
    cases tree
    case directory entries =>
      obtain ⟨sub, hsub, h⟩ := Option.bind_eq_some_iff.mp h
      obtain rfl := Option.some.inj h
      simp [find?, child?, lookup_replace, hi hsub]
    all_goals cases h

-- A place is apart if neither leads through the other: what is put neither covers it nor is made
-- on the way to it.
theorem find?_put?_apart (h : put? content names tree = some after) (hn : ¬names <+: other)
    (ho : ¬other <+: names) : after.find? other = tree.find? other := by
  induction names generalizing tree after other
  case nil => exact absurd List.nil_prefix hn
  case cons name names hi =>
    cases tree
    case directory entries =>
      obtain ⟨sub, hsub, h⟩ := Option.bind_eq_some_iff.mp h
      obtain rfl := Option.some.inj h
      obtain ⟨o, other, rfl⟩ : ∃ o os, other = o :: os :=
        List.exists_cons_of_ne_nil fun h => ho (h ▸ List.nil_prefix)
      by_cases he : o = name
      case neg => simp [find?, child?, lookup_replace, he]
      case pos =>
        subst he
        rw [List.prefix_cons_inj] at hn ho
        have hne : other ≠ [] := fun h => ho (h ▸ List.nil_prefix)
        simp only [find?, child?, lookup_replace, if_pos, Option.bind_some, hi hsub hn ho]
        cases entries.lookup o
        case some => rfl
        -- A directory that is made on the way holds nothing else.
        case none =>
          obtain ⟨x, xs, rfl⟩ := List.exists_cons_of_ne_nil hne
          rfl
    all_goals cases h

-- A file takes the place of a file or of nothing, in a directory that exists.
theorem isDirectory_put? (h : put? content names tree = some after)
    (hc : content.isDirectory = false) (hn : names ≠ [])
    (hparent : (tree.find? names.dropLast).any isDirectory = true)
    (hold : (tree.find? names).any isDirectory = false) (other : List String) :
    (after.find? other).any isDirectory = (tree.find? other).any isDirectory := by
  have hat := find?_put? h
  by_cases hno : names <+: other
  -- Under the new file there is nothing, as there was nothing under what it takes the place of.
  case pos =>
    obtain ⟨rest, rfl⟩ := hno
    rw [find?_append, find?_append, hat, Option.bind_some]
    by_cases hr : rest = []
    case pos => simpa [hr, find?, hc] using hold.symm
    case neg =>
      rw [find?_of_not_isDirectory hc hr]
      cases hf : tree.find? names
      case none => rfl
      case some t =>
        rw [hf, Option.any_some] at hold
        rw [Option.bind_some, find?_of_not_isDirectory hold hr]
  case neg =>
    by_cases hon : other <+: names
    case neg => rw [find?_put?_apart h hno hon]
    -- On the way to the file there are directories, before and after.
    case pos =>
      obtain ⟨rest, rfl⟩ := hon
      have hr : rest ≠ [] := fun h => hno (by simp [h])
      have hsplit : (other ++ rest).dropLast = other ++ rest.dropLast :=
        List.dropLast_append_of_ne_nil hr
      have hafter := isDirectory_of_find?_append hat hr
      rw [hafter]
      rw [hsplit] at hparent
      by_cases hd : rest.dropLast = []
      case pos => rw [hd, List.append_nil] at hparent; exact hparent.symm
      case neg =>
        obtain ⟨t, ht, -⟩ := (Option.any_eq_true _ _).mp hparent
        exact (isDirectory_of_find?_append ht hd).symm

theorem follow?_append (tree : Tree) (xs ys : List (List Char)) (place : List String) :
    tree.follow? (xs ++ ys) place = (tree.follow? xs place).bind (tree.follow? ys) := by
  induction xs generalizing place
  case nil => rfl
  case cons x xs hi =>
    simp only [List.cons_append, follow?, hi]
    repeat' split
    all_goals rfl

theorem follow?_congr
    (h : ∀ place, (after.find? place).any isDirectory = (tree.find? place).any isDirectory)
    (pieces : List (List Char)) (place : List String) :
    after.follow? pieces place = tree.follow? pieces place := by
  induction pieces generalizing place
  case nil => rfl
  case cons piece pieces hi => simp only [follow?, h, hi]

theorem place?_congr
    (h : ∀ place, (after.find? place).any isDirectory = (tree.find? place).any isDirectory)
    (path : String) : after.place? path = tree.place? path := by
  simp only [place?, follow?_congr h]

theorem isDirectory_dropLast (h : (tree.find? place).any isDirectory = true) :
    (tree.find? place.dropLast).any isDirectory = true := by
  rcases List.eq_nil_or_concat place with rfl | ⟨init, last, rfl⟩
  case inl => exact h
  case inr =>
    obtain ⟨t, ht, -⟩ := (Option.any_eq_true _ _).mp h
    rw [List.concat_eq_append] at ht ⊢
    rw [List.dropLast_concat]
    exact isDirectory_of_find?_append ht (List.cons_ne_nil _ _)

theorem isDirectory_start {piece : List Char} {pieces : List (List Char)} {start : List String}
    (h : tree.follow? (piece :: pieces) start = some place) :
    (tree.find? start).any isDirectory = true := by
  rw [follow?] at h
  split at h
  case isTrue => cases h
  case isFalse hdir => simpa using hdir

theorem isDirectory_follow? {pieces : List (List Char)} {start : List String}
    (hstart : (tree.find? start.dropLast).any isDirectory = true)
    (h : tree.follow? pieces start = some place) :
    (tree.find? place.dropLast).any isDirectory = true := by
  induction pieces generalizing start
  case nil =>
    obtain rfl := Option.some.inj h
    exact hstart
  case cons piece pieces hi =>
    have hdir := isDirectory_start h
    rw [follow?] at h
    split at h
    case isTrue => cases h
    -- One dot stays, two dots go up, and a name goes one step down.
    case isFalse =>
      split at h
      case isTrue => exact hi hstart h
      case isFalse =>
        split at h
        case isTrue => exact hi (isDirectory_dropLast hstart) h
        case isFalse =>
          split at h
          case isTrue => cases h
          case isFalse => exact hi (by rwa [List.dropLast_concat]) h

-- What a path leads to lies in a directory.
theorem isDirectory_place? {path : String} (h : tree.place? path = some place) :
    (tree.find? place.dropLast).any isDirectory = true := by
  unfold place? at h
  split at h
  case isTrue => cases h
  case isFalse =>
    dsimp only at h
    obtain ⟨piece, pieces, hp⟩ := List.exists_cons_of_ne_nil
      (Text.splitBy_ne_nil (· = '/') path.toList)
    rw [hp] at h
    exact isDirectory_follow? (isDirectory_dropLast (isDirectory_start h)) h

-- What a write does at the place to which its path leads, and at the other places at its depth.
structure Written (tree after : Tree) (place : List String) (text : String) : Prop where
  isDirectory : ∀ other, (after.find? other).any isDirectory = (tree.find? other).any isDirectory
  device : tree.find? place = some .device → after = tree
  here : tree.find? place ≠ some .device → after.find? place = some (.file text.toUTF8)
  apart : ∀ other, other.length = place.length → other ≠ place →
    after.find? other = tree.find? other

theorem written_of_put? {text : String} (h : put? (file text.toUTF8) place tree = some after)
    (hparent : (tree.find? place.dropLast).any isDirectory = true)
    (hold : (tree.find? place).any isDirectory = false) (hd : tree.find? place ≠ some .device) :
    Written tree after place text where
  isDirectory := by
    refine isDirectory_put? h rfl (fun hroot => ?_) hparent hold
    rw [hroot] at hparent hold
    cases hparent.symm.trans hold
  device h := absurd h hd
  here _ := find?_put? h
  apart other hlen hne :=
    find?_put?_apart h (fun hp => hne (hp.eq_of_length hlen.symm).symm)
      fun hp => hne (hp.eq_of_length hlen)

theorem written_of_write? {path text : String} (h : tree.write? path text = some after) :
    ∃ place, tree.place? path = some place ∧ Written tree after place text := by
  obtain ⟨place, hplace, h⟩ := Option.bind_eq_some_iff.mp h
  refine ⟨place, hplace, ?_⟩
  have hparent := isDirectory_place? hplace
  split at h
  case h_1 => cases h
  case h_2 hdevice =>
    obtain rfl := Option.some.inj h
    exact ⟨fun _ => rfl, fun _ => rfl, fun hd => absurd hdevice hd, fun _ _ _ => rfl⟩
  case h_3 hdir hdevice =>
    refine written_of_put? h hparent ?_ hdevice
    cases hf : tree.find? place
    case none => rfl
    case some t =>
      cases t
      case directory entries => exact absurd hf (hdir entries)
      all_goals rfl

end SourceDocs.Files.Tree

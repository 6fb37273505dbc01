import Mathlib
import SourceDocs.Config.Registry

namespace SourceDocs

section Keyed

variable {α κ : Type} [DecidableEq κ] {key : α → κ} {x : α} {xs : List α} {k : κ}

-- The entries with `x` in the place of the first one that has its key, or else at the end.
def putEntry (key : α → κ) (x : α) : List α → List α
  | [] => [x]
  | y :: ys => if key y = key x then x :: ys else y :: putEntry key x ys

theorem find?_putEntry : (putEntry key x xs).find? (key · = k) =
    if key x = k then some x else xs.find? (key · = k) := by
  induction xs
  case nil => by_cases hk : key x = k <;> simp [putEntry, hk]
  case cons y ys hi =>
    rw [putEntry]
    split
    case isTrue hy => by_cases hk : key x = k <;> simp [hy, hk]
    case isFalse hy =>
      rw [List.find?_cons, List.find?_cons, hi]
      by_cases hyk : key y = k
      case pos => simp [hyk, if_neg fun hk : key x = k => hy (hyk.trans hk.symm)]
      case neg => simp [hyk]

-- Only a new key changes the keys.
theorem map_putEntry : (putEntry key x xs).map key =
    if key x ∈ xs.map key then xs.map key else xs.map key ++ [key x] := by
  induction xs
  case nil => rfl
  case cons y ys hi =>
    rw [putEntry]
    split
    case isTrue hy => simp [hy]
    case isFalse hy =>
      have hmem : key x ∈ (y :: ys).map key ↔ key x ∈ ys.map key := by
        rw [List.map_cons, List.mem_cons, or_iff_right (Ne.symm hy)]
      rw [List.map_cons, hi, if_congr hmem rfl rfl, List.map_cons]
      split <;> rfl

theorem eraseDups_concat (ks : List κ) (k : κ) : (ks ++ [k]).eraseDups =
    if k ∈ ks.eraseDups then ks.eraseDups else ks.eraseDups ++ [k] := by
  rw [List.eraseDups_append]
  by_cases hk : k ∈ ks <;> simp [List.removeAll, hk, List.eraseDups_cons]

theorem nodup_eraseDups (ks : List κ) : ks.eraseDups.Nodup := by
  induction ks using List.reverseRecOn
  case nil => exact .nil
  case append_singleton ks k hi =>
    rw [eraseDups_concat]
    split
    case isTrue => exact hi
    case isFalse hk => exact List.concat_eq_append ▸ hi.concat hk

theorem eraseDups_of_nodup {ks : List κ} (h : ks.Nodup) : ks.eraseDups = ks := by
  induction ks using List.reverseRecOn
  case nil => rfl
  case append_singleton ks k hi =>
    obtain ⟨hks, -, hk⟩ := List.nodup_append.mp h
    rw [eraseDups_concat, hi hks, if_neg fun hmem => hk k hmem k (.head _) rfl]

-- The entries `merged` are what comes of adding the entries `new` to the entries `old`.
structure Merged (key : α → κ) (old new merged : List α) : Prop where
  keys_eq : merged.map key = ((old ++ new).map key).eraseDups
  find?_eq (k : κ) : merged.find? (key · = k) =
    (new.reverse.find? (key · = k)).or (old.find? (key · = k))

namespace Merged

variable {old new merged : List α}

theorem nil (h : (old.map key).Nodup) : Merged key old [] old where
  keys_eq := by rw [List.append_nil, eraseDups_of_nodup h]
  find?_eq _ := rfl

theorem concat (h : Merged key old new merged) (x : α) :
    Merged key old (new ++ [x]) (putEntry key x merged) where
  keys_eq := by
    have hkeys : (old ++ (new ++ [x])).map key = (old ++ new).map key ++ [key x] := by simp
    rw [map_putEntry, h.keys_eq, hkeys, eraseDups_concat]
  find?_eq k := by
    rw [find?_putEntry, h.find?_eq, List.reverse_append, List.reverse_singleton,
      List.singleton_append, List.find?_cons]
    by_cases hk : key x = k <;> simp [hk]

theorem foldl (h : (old.map key).Nodup) (new : List α) :
    Merged key old new (new.foldl (fun xs x => putEntry key x xs) old) := by
  induction new using List.reverseRecOn
  case nil => exact .nil h
  case append_singleton new x hi =>
    rw [List.foldl_concat]
    exact hi.concat x

theorem nodup (h : Merged key old new merged) : (merged.map key).Nodup :=
  h.keys_eq ▸ nodup_eraseDups _

end Merged

end Keyed

def foldedName (name : String) : String :=
  String.ofList (name.toList.map Char.toLower)

theorem sameIgnoringCase_iff {a b : String} :
    Text.sameIgnoringCase a b = true ↔ foldedName a = foldedName b := by
  rw [Text.sameIgnoringCase, beq_iff_eq, foldedName, foldedName, String.ofList_inj]

theorem sameIgnoringCase_eq (a b : String) :
    Text.sameIgnoringCase a b = decide (foldedName a = foldedName b) := by
  rw [Bool.eq_iff_iff, sameIgnoringCase_iff, decide_eq_true_iff]

theorem pairwise_of_nodup {α : Type} {name : α → String} {xs : List α}
    (h : (xs.map fun x => foldedName (name x)).Nodup) :
    xs.Pairwise fun x y => Text.sameIgnoringCase (name x) (name y) = false :=
  (List.pairwise_map.mp h).imp fun hne => by rw [sameIgnoringCase_eq, decide_eq_false hne]

theorem KindTable.insert_go_eq (kind : Kind) (kinds : List Kind) :
    KindTable.insert.go kind kinds = putEntry (foldedName ·.name) kind kinds := by
  induction kinds
  case nil => rfl
  case cons k ks hi => simp only [KindTable.insert.go, putEntry, sameIgnoringCase_iff, hi]

namespace Registry

variable {r : Registry}

theorem name_prepared (profile : Profile) : profile.prepared.name = profile.name := by
  unfold Profile.prepared
  split <;> rfl

theorem insert_go_eq (profile : Profile) (profiles : List Profile) :
    insert.go profile profiles = putEntry (foldedName ·.name) profile.prepared profiles := by
  induction profiles
  case nil => rfl
  case cons p ps hi => simp only [insert.go, putEntry, sameIgnoringCase_iff, name_prepared, hi]

-- Languages and kinds do not meet.
theorem kinds_foldl_insertKind (kinds : List Kind) : (kinds.foldl insertKind r).kinds.kinds =
    kinds.foldl (fun ks k => putEntry (foldedName ·.name) k ks) r.kinds.kinds := by
  induction kinds generalizing r
  case nil => rfl
  case cons k ks hi =>
    rw [List.foldl_cons, hi, List.foldl_cons, ← KindTable.insert_go_eq]
    rfl

theorem profiles_foldl_insertKind (kinds : List Kind) :
    (kinds.foldl insertKind r).profiles = r.profiles := by
  induction kinds generalizing r
  case nil => rfl
  case cons k ks hi => exact hi

theorem kinds_foldl_insert (languages : List Profile) :
    (languages.foldl insert r).kinds = r.kinds := by
  induction languages generalizing r
  case nil => rfl
  case cons p ps hi => exact hi

theorem profiles_foldl_insert (languages : List Profile) :
    (languages.foldl insert r).profiles = (languages.map Profile.prepared).foldl
      (fun ps p => putEntry (foldedName ·.name) p ps) r.profiles := by
  induction languages generalizing r
  case nil => rfl
  case cons p ps hi =>
    rw [List.foldl_cons, hi, List.map_cons, List.foldl_cons, ← insert_go_eq]
    rfl

theorem merged_kinds (languages : List Profile) (kinds : List Kind) :
    Merged (foldedName ·.name) KindTable.builtin.kinds kinds
      (configured languages kinds).kinds.kinds := by
  rw [configured, kinds_foldl_insert, kinds_foldl_insertKind]
  exact .foldl (by decide +kernel) kinds

theorem merged_profiles (languages : List Profile) (kinds : List Kind) :
    Merged (foldedName ·.name) Profile.builtins (languages.map Profile.prepared)
      (configured languages kinds).profiles := by
  rw [configured, profiles_foldl_insert, profiles_foldl_insertKind]
  exact .foldl (by decide +kernel) _

-- A configuration is merged into the built-in languages and kinds as into a table in which case
-- does not count in names and the last entry of a name wins, in the place of the first. A language
-- found by its name has derived comment symbols if it is read.
theorem last_entry_wins (languages : List Profile) (kinds : List Kind) :
    let r := configured languages kinds
    (∀ text r', (Config.Toml.parse? text).bind decode? = some (languages, kinds) →
      ofToml text = .ok r' → r' = r) ∧
    (r.profiles.Pairwise fun p q => Text.sameIgnoringCase p.name q.name = false) ∧
    (r.kinds.kinds.Pairwise fun k l => Text.sameIgnoringCase k.name l.name = false) ∧
    (∀ name, r.byName name =
      match languages.reverse.find? fun p => Text.sameIgnoringCase p.name name with
      | some p => .ok (if p.support = .basic then p.deriveCommentSymbols else p)
      | none =>
        match Profile.builtins.find? fun p => Text.sameIgnoringCase p.name name with
        | some p => .ok p
        | none => .error (.unknownLanguage name)) ∧
    (∀ name, r.kinds.get? name =
      (kinds.reverse.find? fun k => Text.sameIgnoringCase k.name name).or
        (KindTable.builtin.get? name)) ∧
    r.profiles.map (foldedName ·.name) =
      ((Profile.builtins ++ languages).map (foldedName ·.name)).eraseDups ∧
    r.kinds.kinds.map (foldedName ·.name) =
      ((KindTable.builtin.kinds ++ kinds).map (foldedName ·.name)).eraseDups := by
  intro r
  have hk := merged_kinds languages kinds
  have hp := merged_profiles languages kinds
  have hnames : (languages.map Profile.prepared).map (foldedName ·.name) =
      languages.map (foldedName ·.name) := by
    rw [List.map_map]
    exact List.map_congr_left fun p _ => congrArg foldedName (name_prepared p)
  refine ⟨fun text r' hd h => ?read, pairwise_of_nodup hp.nodup, pairwise_of_nodup hk.nodup,
    fun name => ?profile, fun name => ?kind, ?names, hk.keys_eq⟩
  case read =>
    rw [ofToml, hd] at h
    dsimp only at h
    split at h <;> cases h
    rfl
  case profile =>
    have hfind := hp.find?_eq (foldedName name)
    rw [← List.map_reverse, List.find?_map] at hfind
    simp only [byName, sameIgnoringCase_eq, r, hfind, Function.comp_def, name_prepared]
    cases languages.reverse.find? _ <;> rfl
  case kind =>
    simp only [KindTable.get?, sameIgnoringCase_eq]
    exact hk.find?_eq _
  case names => rw [hp.keys_eq, List.map_append, hnames, List.map_append]

-- Of two languages with the name of a built-in one, in different case, the second one is found in
-- its place, and a new kind stands behind the others.
theorem last_entry_wins_python :
    let language (name symbol : String) : Profile :=
      { Profile.plain with name := name, lineComments := [symbol] }
    let r := configured [language "PYTHON" "#", language "Python" ";"]
      [⟨"trigger", ["trigger"], .normal, false, none⟩]
    r.byName "python" = .ok (language "Python" ";").deriveCommentSymbols ∧
      r.profiles.map (·.name) = Profile.builtins.map fun p =>
        if p.name = "python" then "Python" else p.name := by
  intro language r
  obtain ⟨-, -, -, hname, -⟩ := last_entry_wins [language "PYTHON" "#", language "Python" ";"]
    [⟨"trigger", ["trigger"], .normal, false, none⟩]
  exact ⟨(hname "python").trans (by decide +kernel), by decide +kernel⟩

end Registry
end SourceDocs

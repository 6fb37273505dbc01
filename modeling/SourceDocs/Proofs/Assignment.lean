import SourceDocs.Proofs.Window

namespace SourceDocs.Prototype

def entitiesIn (c : Comment.Candidate) (entities : List Entity) : List Nat :=
  (List.range entities.length).filter fun i => entities[i]?.any (c.containsLine ·.line)

-- The position of the entity that a comment is about, which is the last one in it that is not
-- embedded, or the first one when all of them are.
def entityOf? (c : Comment.Candidate) (entities : List Entity) : Option Nat :=
  let inside := entitiesIn c entities
  (inside.reverse.find? fun i => entities[i]?.any (!·.isEmbedded)).or inside.head?

variable {c d : Comment.Candidate} {entities entities' : List Entity} {i j k : Nat}

theorem mem_entitiesIn :
    i ∈ entitiesIn c entities ↔ ∃ e, entities[i]? = some e ∧ c.containsLine e.line = true := by
  simp only [entitiesIn, List.mem_filter, List.mem_range, Option.any_eq_true, and_iff_right_iff_imp]
  rintro ⟨e, he, -⟩
  exact (List.getElem?_eq_some_iff.mp he).1

theorem pairwise_entitiesIn : (entitiesIn c entities).Pairwise (· < ·) :=
  List.pairwise_lt_range.filter _

theorem mem_of_entityOf? (h : entityOf? c entities = some i) : i ∈ entitiesIn c entities := by
  rcases Option.or_eq_some_iff.mp h with h | ⟨-, h⟩
  case inl => exact List.mem_reverse.mp (List.mem_of_find?_eq_some h)
  case inr => exact List.mem_of_head? h

theorem entityOf?_eq_none (h : ∀ i, i ∉ entitiesIn c entities) : entityOf? c entities = none := by
  simp [entityOf?, List.eq_nil_iff_forall_not_mem.mpr h]

-- The entity is the last one that is not embedded.
theorem entityOf?_of_last (hi : i ∈ entitiesIn c entities)
    (hn : entities[i]?.any (·.isEmbedded) = false)
    (hlast : ∀ j ∈ entitiesIn c entities, i < j → entities[j]?.any (·.isEmbedded) = true) :
    entityOf? c entities = some i := by
  obtain ⟨front, back, hsplit⟩ := List.append_of_mem hi
  have hpairs : (entitiesIn c entities).Pairwise (· < ·) := pairwise_entitiesIn
  rw [hsplit] at hpairs
  have hback : back.reverse.find? (entities[·]?.any (!·.isEmbedded)) = none := by
    refine List.find?_eq_none.mpr fun j hj => ?_
    have hj := List.mem_reverse.mp hj
    have hlt := List.rel_of_pairwise_cons (List.pairwise_append.mp hpairs).2.1 hj
    have := hlast j (by simp [hsplit, hj]) hlt
    cases he : entities[j]? <;> simp_all
  have ⟨e, he, _⟩ := mem_entitiesIn.mp hi
  have hfirst : entities[i]?.any (!·.isEmbedded) = true := by simpa [he] using hn
  have hfind : (front ++ i :: back).reverse.find? (entities[·]?.any (!·.isEmbedded)) = some i := by
    rw [List.reverse_append, List.reverse_cons, List.append_assoc, List.find?_append, hback,
      Option.none_or]
    exact List.find?_cons_of_pos hfirst
  rw [entityOf?, hsplit, hfind, Option.some_or]

-- All entities are embedded, and this one is the first.
theorem entityOf?_of_first (hi : i ∈ entitiesIn c entities)
    (hall : ∀ j ∈ entitiesIn c entities, i ≤ j ∧ entities[j]?.any (·.isEmbedded) = true) :
    entityOf? c entities = some i := by
  have hnone : (entitiesIn c entities).reverse.find? (entities[·]?.any (!·.isEmbedded)) = none := by
    refine List.find?_eq_none.mpr fun j hj => ?_
    have := (hall j (List.mem_reverse.mp hj)).2
    cases he : entities[j]? <;> simp_all
  have hpairs : (entitiesIn c entities).Pairwise (· < ·) := pairwise_entitiesIn
  rw [entityOf?, hnone, Option.none_or]
  cases hin : entitiesIn c entities
  case nil => simp [hin] at hi
  case cons first rest =>
    rw [hin] at hi hall hpairs
    rcases List.mem_cons.mp hi with rfl | hrest
    case inl => rfl
    case inr =>
      have := List.rel_of_pairwise_cons hpairs hrest
      have := (hall first (by simp)).1
      omega

section Walk

variable (entities : Array Entity) (startLine endLine k : Nat)

theorem lastBefore_eq_or : lastBefore entities endLine k = k ∨
    entities[lastBefore entities endLine k]?.any (·.line < endLine) = true := by
  fun_induction lastBefore entities endLine k
  case case1 k h hi => exact .inr <| hi.elim (fun hi => hi.symm ▸ h) id
  case case2 => exact .inl rfl

theorem lastBefore_stops :
    entities[lastBefore entities endLine k + 1]?.any (·.line < endLine) = false := by
  fun_induction lastBefore entities endLine k
  case case1 hi => exact hi
  case case2 h => simpa using h

theorem backToOuter_le : backToOuter entities startLine k ≤ k := by
  fun_induction backToOuter entities startLine k <;> omega

theorem backToOuter_passes {i : Nat} (h : backToOuter entities startLine k < i) (hi : i ≤ k) :
    entities[i]?.any (·.isEmbedded) = true ∧
      entities[i - 1]?.any (startLine ≤ ·.line) = true := by
  fun_induction backToOuter entities startLine k
  case case1 => omega
  case case2 k hp ih =>
    rcases Nat.lt_or_eq_of_le hi with hlt | rfl
    case inl => exact ih h (by omega)
    case inr => simpa using hp
  case case3 => omega

theorem backToOuter_stops {i : Nat} (h : backToOuter entities startLine k = i + 1) :
    entities[i + 1]?.any (·.isEmbedded) = false ∨
      entities[i]?.any (startLine ≤ ·.line) = false := by
  fun_induction backToOuter entities startLine k
  case case1 => cases h
  case case2 ih => exact ih h
  case case3 k hp =>
    obtain rfl : k = i := by omega
    simpa only [Bool.and_eq_true, Decidable.not_and_iff_not_or_not, Bool.not_eq_true] using hp

variable {entities startLine endLine k}

theorem line_le (h : entities.toList.Pairwise (·.line ≤ ·.line)) {i j : Nat} (hij : i ≤ j)
    {e f : Entity} (he : entities[i]? = some e) (hf : entities[j]? = some f) : e.line ≤ f.line := by
  obtain ⟨hi, rfl⟩ := Array.getElem?_eq_some_iff.mp he
  obtain ⟨hj, rfl⟩ := Array.getElem?_eq_some_iff.mp hf
  rcases Nat.lt_or_eq_of_le hij with hlt | rfl
  case inl => exact List.pairwise_iff_getElem.mp h i j hi hj hlt
  case inr => exact Nat.le_refl _

-- No entity behind the last one before the end of the comment is in it.
theorem le_lastBefore_of_mem (h : entities.toList.Pairwise (·.line ≤ ·.line)) {i : Nat}
    (hi : i ∈ entitiesIn c entities.toList) : i ≤ lastBefore entities c.endLine k := by
  obtain ⟨e, he, hc⟩ := mem_entitiesIn.mp hi
  rw [Array.getElem?_toList] at he
  by_contra hlt
  have hstop := lastBefore_stops entities c.endLine k
  have hlen := (Array.getElem?_eq_some_iff.mp he).1
  have hnext := (Array.getElem?_eq_getElem
    (show lastBefore entities c.endLine k + 1 < entities.size by omega) :)
  have := line_le h (by omega) hnext he
  simp only [hnext, Option.any_some, decide_eq_false_iff_not] at hstop
  have := Comment.Candidate.containsLine_iff.mp hc
  omega

-- An embedded entity at which the way back ends is the first one in the comment.
theorem le_of_mem_of_embedded (h : entities.toList.Pairwise (·.line ≤ ·.line))
    (hb : entities.toList[backToOuter entities c.startLine k]?.any (·.isEmbedded) = true) {i : Nat}
    (hi : i ∈ entitiesIn c entities.toList) : backToOuter entities c.startLine k ≤ i := by
  obtain ⟨e, he, hc⟩ := mem_entitiesIn.mp hi
  rw [Array.getElem?_toList] at he hb
  by_contra hlt
  obtain ⟨n, hn⟩ := Nat.exists_eq_succ_of_ne_zero (n := backToOuter entities c.startLine k)
    (by omega)
  obtain ⟨f, hf, -⟩ := Option.any_eq_true _ _ |>.mp hb
  have hlen := (Array.getElem?_eq_some_iff.mp hf).1
  have hprev := Array.getElem?_eq_getElem (show n < entities.size by omega)
  have := line_le h (by omega) he hprev
  have := Comment.Candidate.containsLine_iff.mp hc
  rcases backToOuter_stops _ _ _ hn with hs | hs
  case inl => simp [hn, hs] at hb
  case inr =>
    simp only [hprev, Option.any_some, decide_eq_false_iff_not] at hs
    omega

-- The walk stands behind the entities of all comments before, or still at the first entity.
theorem line_lastBefore_lt (h : entities.toList.Pairwise (·.line ≤ ·.line))
    (hk : k = 0 ∨ entities[k]?.any (·.line < c.startLine) = true) {i : Nat}
    (hi : i ∈ entitiesIn c entities.toList)
    (hlt : i < backToOuter entities c.startLine (lastBefore entities c.endLine k)) :
    entities[lastBefore entities c.endLine k]?.any (·.line < c.endLine) = true := by
  rcases lastBefore_eq_or entities c.endLine k with hsame | hlast
  case inr => exact hlast
  case inl =>
    -- The walk has not moved, and all entities up to there are in the comments before.
    obtain ⟨e, he, hc⟩ := mem_entitiesIn.mp hi
    rw [Array.getElem?_toList] at he
    rw [hsame] at hlt
    have hle := backToOuter_le entities c.startLine k
    obtain ⟨f, hf, hline⟩ := Option.any_eq_true _ _ |>.mp (hk.resolve_left (by omega))
    have := line_le h (by omega) he hf
    have := Comment.Candidate.containsLine_iff.mp hc
    simp only [decide_eq_true_eq] at hline
    omega

-- When the comment has an entity at all, the way back ends in it.
theorem backToOuter_containsLine (h : entities.toList.Pairwise (·.line ≤ ·.line))
    (hk : k = 0 ∨ entities[k]?.any (·.line < c.startLine) = true) {i : Nat}
    (hi : i ∈ entitiesIn c entities.toList) :
    entities[backToOuter entities c.startLine (lastBefore entities c.endLine k)]?.any
      (c.containsLine ·.line) = true := by
  have hle := backToOuter_le entities c.startLine (lastBefore entities c.endLine k)
  obtain ⟨e, he, hc⟩ := mem_entitiesIn.mp hi
  rw [Array.getElem?_toList] at he
  have ⟨hstart, hend⟩ := Comment.Candidate.containsLine_iff.mp hc
  have hcontains {j : Nat} {f : Entity} (hf : entities[j]? = some f)
      (hline : c.startLine ≤ f.line ∧ f.line < c.endLine) :
      entities[j]?.any (c.containsLine ·.line) = true := by
    simpa only [hf, Option.any_some, Comment.Candidate.containsLine_iff] using hline
  generalize htarget : backToOuter entities c.startLine (lastBefore entities c.endLine k) = target
    at hle
  rcases Nat.lt_trichotomy i target with hlt | rfl | hlt
  case inl =>
    obtain ⟨g, hg, hline⟩ :=
      Option.any_eq_true _ _ |>.mp (line_lastBefore_lt h hk hi (htarget ▸ hlt))
    have hlen := (Array.getElem?_eq_some_iff.mp hg).1
    have hf := Array.getElem?_eq_getElem (show target < entities.size by omega)
    have := line_le h (Nat.le_of_lt hlt) he hf
    have := line_le h hle hf hg
    simp only [decide_eq_true_eq] at hline
    exact hcontains hf ⟨by omega, by omega⟩
  case inr.inl => exact hcontains he ⟨hstart, hend⟩
  case inr.inr =>
    have hlast := le_lastBefore_of_mem (k := k) h hi
    have hpass : backToOuter entities c.startLine (lastBefore entities c.endLine k) < target + 1 :=
      htarget ▸ Nat.lt_succ_self target
    have := (backToOuter_passes _ _ _ hpass (by omega)).2
    obtain ⟨f, hf, hline⟩ := Option.any_eq_true _ _ |>.mp this
    simp only [Nat.add_sub_cancel, decide_eq_true_eq] at hf hline
    have := line_le h (Nat.le_of_lt hlt) hf he
    exact hcontains hf ⟨hline, by omega⟩

theorem entityOf?_toList (h : entities.toList.Pairwise (·.line ≤ ·.line))
    (hk : k = 0 ∨ entities[k]?.any (·.line < c.startLine) = true) :
    let target := backToOuter entities c.startLine (lastBefore entities c.endLine k)
    entityOf? c entities.toList =
      if entities[target]?.any (c.containsLine ·.line) then some target else none := by
  intro target
  -- What lies between the target and the end of the walk is embedded.
  have hembedded : ∀ i ∈ entitiesIn c entities.toList, target < i →
      entities.toList[i]?.any (·.isEmbedded) = true := fun i hi hlt => by
    rw [Array.getElem?_toList]
    exact (backToOuter_passes _ _ _ hlt (le_lastBefore_of_mem h hi)).1
  split
  case isTrue hin =>
    obtain ⟨e, he, hc⟩ := Option.any_eq_true _ _ |>.mp hin
    rw [← Array.getElem?_toList] at he
    have hmem := mem_entitiesIn.mpr ⟨e, he, hc⟩
    cases hb : entities.toList[target]?.any (·.isEmbedded)
    case false => exact entityOf?_of_last hmem hb hembedded
    case true =>
      refine entityOf?_of_first hmem fun j hj => ?_
      have hfirst : target ≤ j := le_of_mem_of_embedded h hb hj
      refine ⟨hfirst, ?_⟩
      rcases Nat.lt_or_eq_of_le hfirst with hlt | rfl
      case inl => exact hembedded j hj hlt
      case inr => exact hb
  case isFalse hin => exact entityOf?_eq_none fun i hi => hin (backToOuter_containsLine h hk hi)

end Walk

section Give

variable (profile : Profile) (buf : Buffer)

def found? (title : List Char) (enders : Enders) (startLine endLine : Nat) : Option (List Char) :=
  match ((find profile buf title enders startLine endLine).run .never).1 with
  | .completed found => found
  | .cancelled => none

-- The entity of a comment with the prototype that is found up to `endLine`, unless it already has
-- one or prototypes of its kind are not searched for.
def withPrototype (c : Comment.Candidate) (endLine : Nat) (e : Entity) : Entity :=
  match e.prototype, profile.endersFor? e.kind with
  | none, some enders =>
    let found := found? profile buf e.title.toList enders c.endLine endLine
    { e with prototype := found.map String.ofList }
  | _, _ => e

def give (c : Comment.Candidate) (rest : List Comment.Candidate) (entities : List Entity) :
    List Entity :=
  match entityOf? c entities with
  | none => entities
  | some i => entities.modify i (withPrototype profile buf c (searchEnd buf rest))

def giveAll (entities : List Entity) : List Comment.Candidate → List Entity
  | [] => entities
  | c :: rest => giveAll (give profile buf c rest entities) rest

def place (e : Entity) : Nat × Bool :=
  (e.line, e.isEmbedded)

variable {profile buf}

theorem found?_of_completed {title : List Char} {enders : Enders} {startLine endLine : Nat}
    {signal : Signal} {n m : Nat} {found : Option (List Char)}
    (h : find profile buf title enders startLine endLine signal n = (.completed found, m)) :
    found? profile buf title enders startLine endLine = found := by
  rw [found?, (find_obedient ..).never_of_completed h]

variable {endLine : Nat} {e : Entity} {rest comments : List Comment.Candidate}

theorem withPrototype_of_isSome (h : e.prototype.isSome) :
    withPrototype profile buf c endLine e = e := by
  obtain ⟨p, hp⟩ := Option.isSome_iff_exists.mp h
  simp [withPrototype, hp]

theorem withPrototype_of_endersFor?_none (h : profile.endersFor? e.kind = none) :
    withPrototype profile buf c endLine e = e := by
  unfold withPrototype
  split
  case h_1 he => cases h.symm.trans he
  case h_2 => rfl

theorem withPrototype_of_endersFor? (hp : e.prototype = none) {enders : Enders}
    (he : profile.endersFor? e.kind = some enders) :
    withPrototype profile buf c endLine e =
      let found := found? profile buf e.title.toList enders c.endLine endLine
      { e with prototype := found.map String.ofList } := by
  simp [withPrototype, hp, he]

theorem withPrototype_of_found (hp : e.prototype = none) {enders : Enders}
    (he : profile.endersFor? e.kind = some enders) {s : String}
    (hf : found? profile buf e.title.toList enders c.endLine endLine = some s.toList) :
    withPrototype profile buf c endLine e = { e with prototype := some s } := by
  simp [withPrototype_of_endersFor? hp he, hf]

theorem withPrototype_eq : withPrototype profile buf c endLine e =
    { e with prototype := (withPrototype profile buf c endLine e).prototype } := by
  unfold withPrototype
  split <;> rfl

theorem place_withPrototype : place (withPrototype profile buf c endLine e) = place e := by
  rw [withPrototype_eq]
  rfl

theorem map_place_give : (give profile buf c rest entities).map place = entities.map place := by
  unfold give
  split
  case h_1 => rfl
  case h_2 =>
    refine List.ext_getElem? fun j => ?_
    cases hj : entities[j]? <;> simp [List.getElem?_modify, hj]
    split
    case isTrue => exact place_withPrototype
    case isFalse => rfl

theorem length_give : (give profile buf c rest entities).length = entities.length := by
  have : ((give profile buf c rest entities).map place).length = (entities.map place).length :=
    congrArg List.length map_place_give
  simpa using this

theorem any_of_map_place (h : entities'.map place = entities.map place) (p : Nat × Bool → Bool)
    (i : Nat) : entities'[i]?.any (p ∘ place) = entities[i]?.any (p ∘ place) := by
  have hmap (es : List Entity) : es[i]?.any (p ∘ place) = (es.map place)[i]?.any p := by
    rw [List.getElem?_map, Option.any_map]
    rfl
  rw [hmap, hmap, h]

theorem entityOf?_of_map_place (h : entities'.map place = entities.map place) :
    entityOf? c entities' = entityOf? c entities := by
  have hlines := any_of_map_place h fun p => c.containsLine p.1
  have hembedded := any_of_map_place h fun p => !p.2
  have hlen : entities'.length = entities.length := by simpa using congrArg List.length h
  have hin : entitiesIn c entities' = entitiesIn c entities := by
    unfold entitiesIn
    rw [hlen]
    exact List.filter_congr fun i _ => hlines i
  unfold entityOf?
  rw [hin]
  exact congrArg (fun p => ((entitiesIn c entities).reverse.find? p).or _) (funext hembedded)

theorem pairwise_of_map_place (h : entities'.map place = entities.map place)
    (hs : entities.Pairwise (·.line ≤ ·.line)) : entities'.Pairwise (·.line ≤ ·.line) := by
  have hp : (entities.map place).Pairwise (·.1 ≤ ·.1) :=
    List.pairwise_map (f := place) (R := (·.1 ≤ ·.1)) |>.mpr hs
  exact List.pairwise_map (f := place) (R := (·.1 ≤ ·.1)) |>.mp (h ▸ hp)

theorem toList_afterSearch {entities : Array Entity} {target : Nat}
    (he : entities[target]? = some e) (hp : e.prototype = none) (found : Option (List Char)) :
    (afterSearch entities target found).toList =
      entities.toList.modify target fun e =>
        { e with prototype := found.map String.ofList } := by
  cases found
  case some cs => exact Array.toList_modify
  case none =>
    refine List.ext_getElem? fun j => ?_
    rw [List.getElem?_modify, afterSearch, Array.getElem?_toList]
    cases hj : entities[j]?
    case none => rfl
    case some f =>
      simp only [Option.map_none, Option.map_eq_map, Option.map_some, Option.some.injEq]
      split
      case isTrue htarget =>
        obtain rfl : e = f := Option.some.inj (he.symm.trans (htarget ▸ hj))
        simp [← hp]
      case isFalse => rfl

theorem modify_congr {target : Nat} (he : entities[target]? = some e) {f g : Entity → Entity}
    (h : f e = g e) : entities.modify target f = entities.modify target g := by
  refine List.ext_getElem? fun j => ?_
  rw [List.getElem?_modify, List.getElem?_modify]
  rcases Nat.decEq target j with hne | rfl
  · simp [hne]
  · simp [he, h]

-- One comment of the walk leads to the search for its entity.
theorem give_toList (profile : Profile) (buf : Buffer) (rest : List Comment.Candidate)
    {entities : Array Entity} (hs : entities.toList.Pairwise (·.line ≤ ·.line))
    (hk : k = 0 ∨ entities[k]?.any (·.line < c.startLine) = true) :
    let target := backToOuter entities c.startLine (lastBefore entities c.endLine k)
    give profile buf c rest entities.toList =
      match entities[target]?.bind fun e =>
          (wantedEnders? profile c e).map fun enders => (e.title, enders) with
      | none => entities.toList
      | some (title, enders) =>
        let found := found? profile buf title.toList enders c.endLine (searchEnd buf rest)
        (afterSearch entities target found).toList := by
  intro target
  rw [give, entityOf?_toList hs hk]
  cases he : entities[target]?
  case none => simp
  case some e =>
    have hlist : entities.toList[target]? = some e := by rwa [Array.getElem?_toList]
    have hsame (h : withPrototype profile buf c (searchEnd buf rest) e = e) :
        entities.toList.modify target (withPrototype profile buf c (searchEnd buf rest)) =
          entities.toList := by
      rw [modify_congr (g := id) hlist h, List.modify_id]
    simp only [show backToOuter _ _ _ = target from rfl, Option.any_some, Option.bind_some,
      wantedEnders?]
    cases hc : c.containsLine e.line
    case false => simp
    case true =>
      cases hp : e.prototype
      case some => simpa [hp] using hsame (withPrototype_of_isSome (by simp [hp]))
      case none =>
        cases hw : profile.endersFor? e.kind
        case none => simpa [hw] using hsame (withPrototype_of_endersFor?_none hw)
        case some enders =>
          rw [if_pos rfl, if_pos ⟨rfl, rfl⟩]
          simp only [Option.map_some]
          rw [toList_afterSearch he hp]
          exact modify_congr hlist (withPrototype_of_endersFor? hp hw)

-- Where the walk stands after a comment, it stands before all later ones.
theorem lastBefore_invariant {entities entities' : Array Entity}
    (hplace : entities'.toList.map place = entities.toList.map place)
    (hk : k = 0 ∨ entities[k]?.any (·.line < d.startLine) = true) (hle : c.endLine ≤ d.startLine) :
    lastBefore entities c.endLine k = 0 ∨
      entities'[lastBefore entities c.endLine k]?.any (·.line < d.startLine) = true := by
  have hsame (i : Nat) : entities'[i]?.any (·.line < d.startLine) =
      entities[i]?.any (·.line < d.startLine) := by
    rw [← Array.getElem?_toList, ← Array.getElem?_toList]
    exact any_of_map_place hplace (fun p => p.1 < d.startLine) i
  rw [hsame]
  rcases lastBefore_eq_or entities c.endLine k with heq | hlast
  case inl => rwa [heq]
  case inr =>
    obtain ⟨e, he, hline⟩ := Option.any_eq_true _ _ |>.mp hlast
    simp only [decide_eq_true_eq] at hline
    exact .inr <| Option.any_eq_true _ _ |>.mpr ⟨e, he, by simp; omega⟩

theorem assignedFrom_completed (entities : Array Entity) {signal : Signal} {n m : Nat}
    {es : List Entity} (hs : entities.toList.Pairwise (·.line ≤ ·.line))
    (hpairs : comments.Pairwise (·.endLine ≤ ·.startLine))
    (hk : ∀ c ∈ comments, k = 0 ∨ entities[k]?.any (·.line < c.startLine) = true)
    (h : assignedFrom profile buf k entities comments signal n = (.completed es, m)) :
    es = giveAll profile buf entities.toList comments := by
  induction comments generalizing k entities n
  case nil =>
    cases h
    rfl
  case cons c rest ih =>
    have hgive := give_toList profile buf rest hs (hk c (by simp))
    have hplace : (give profile buf c rest entities.toList).map place =
        entities.toList.map place := map_place_give
    have hnext {entities' : Array Entity} {n : Nat}
        (he : give profile buf c rest entities.toList = entities'.toList)
        (h : assignedFrom profile buf (lastBefore entities c.endLine k) entities' rest signal n =
          (.completed es, m)) : es = giveAll profile buf entities.toList (c :: rest) := by
      rw [he] at hplace
      rw [giveAll, he]
      refine ih _ (pairwise_of_map_place hplace hs) hpairs.of_cons (fun d hd => ?_) h
      exact lastBefore_invariant hplace (hk d (by simp [hd])) (List.rel_of_pairwise_cons hpairs hd)
    rw [assignedFrom_cons] at h
    dsimp only at h hgive
    split at h
    case h_1 hw =>
      simp only [hw] at hgive
      exact hnext hgive h
    case h_2 title enders hw =>
      simp only [hw] at hgive
      rcases hf : find profile buf title.toList enders c.endLine
        ((rest.head?.map (·.startLine)).getD (buf.lineCount + 1)) signal n with ⟨found | _, m'⟩
      case completed =>
        rw [Poll.bind_completed hf] at h
        rw [searchEnd, found?_of_completed hf] at hgive
        exact hnext hgive h
      case cancelled =>
        rw [Poll.bind_cancelled hf] at h
        cases h

theorem length_giveAll : (giveAll profile buf entities comments).length = entities.length := by
  induction comments generalizing entities
  case nil => rfl
  case cons c rest ih => rw [giveAll, ih, length_give]

theorem getElem?_give_of_ne (h : entityOf? c entities ≠ some i) :
    (give profile buf c rest entities)[i]? = entities[i]? := by
  unfold give
  split
  case h_1 => rfl
  case h_2 j hj =>
    have hne : j ≠ i := fun hji => h (hji ▸ hj)
    simp [hne]

theorem getElem?_give (h : entityOf? c entities = some i) :
    (give profile buf c rest entities)[i]? =
      entities[i]?.map (withPrototype profile buf c (searchEnd buf rest)) := by
  simp [give, h]

theorem getElem?_giveAll_of_ne (h : ∀ c ∈ comments, entityOf? c entities ≠ some i) :
    (giveAll profile buf entities comments)[i]? = entities[i]? := by
  induction comments generalizing entities
  case nil => rfl
  case cons c rest ih =>
    rw [giveAll, ih fun d hd => ?_, getElem?_give_of_ne (h c (by simp))]
    rw [entityOf?_of_map_place map_place_give]
    exact h d (by simp [hd])

-- Two comments of which one is behind the other are about different entities.
theorem entityOf?_ne (h : c.endLine ≤ d.startLine) (hc : entityOf? c entities = some i) :
    entityOf? d entities ≠ some i := by
  intro hd
  obtain ⟨e, he, hin⟩ := mem_entitiesIn.mp (mem_of_entityOf? hc)
  obtain ⟨f, hf, hin'⟩ := mem_entitiesIn.mp (mem_of_entityOf? hd)
  obtain rfl : e = f := Option.some.inj (he.symm.trans hf)
  exact Comment.Candidate.not_containsLine_both h e.line ⟨hin, hin'⟩

theorem getElem?_giveAll {before after : List Comment.Candidate}
    (hpairs : (before ++ c :: after).Pairwise (·.endLine ≤ ·.startLine))
    (h : entityOf? c entities = some i) :
    (giveAll profile buf entities (before ++ c :: after))[i]? =
      entities[i]?.map (withPrototype profile buf c (searchEnd buf after)) := by
  induction before generalizing entities
  case nil =>
    rw [List.nil_append, giveAll, getElem?_giveAll_of_ne fun d hd => ?_, getElem?_give h]
    rw [entityOf?_of_map_place map_place_give]
    exact entityOf?_ne (List.rel_of_pairwise_cons hpairs hd) h
  case cons b before ih =>
    rw [List.cons_append, giveAll, ih hpairs.of_cons, getElem?_give_of_ne]
    · intro hb
      exact entityOf?_ne (List.rel_of_pairwise_cons hpairs (by simp)) hb h
    · rwa [entityOf?_of_map_place map_place_give]

end Give

-- What may become of an entity: a prototype is all that it gains, and only if it has none.
structure Gains (e r : Entity) : Prop where
  only : r = { e with prototype := r.prototype }
  kept : e.prototype.isSome → r = e

theorem gains_withPrototype (profile : Profile) (buf : Buffer) (endLine : Nat) (e : Entity) :
    Gains e (withPrototype profile buf c endLine e) :=
  ⟨withPrototype_eq, withPrototype_of_isSome⟩

-- Each comment gives the entity that it is about the prototype that follows the comment, and
-- nothing else happens to any entity.
theorem assign_one_by_one (profile : Profile) (buf : Buffer) {comments : List Comment.Candidate}
    {entities : List Entity} (hc : comments.Pairwise (·.endLine ≤ ·.startLine))
    (he : entities.Pairwise (·.line ≤ ·.line)) :
    (assign profile buf comments entities .never 0).outcome = .completed () ∧
    comments.Pairwise (fun c d => ∀ i,
      entityOf? c entities = some i → entityOf? d entities ≠ some i) ∧
    ∀ signal n, (assign profile buf comments entities signal n).outcome = .completed () →
      let found := (assign profile buf comments entities signal n).entities.toList
      (∀ before c after i, comments = before ++ c :: after → entityOf? c entities = some i →
        found[i]? = entities[i]?.map (withPrototype profile buf c (searchEnd buf after))) ∧
      (∀ i, (∀ c ∈ comments, entityOf? c entities ≠ some i) → found[i]? = entities[i]?) ∧
      List.Forall₂ Gains entities found := by
  refine ⟨?completes, hc.imp fun h i => entityOf?_ne h, fun signal n h => ?effects⟩
  case completes =>
    obtain ⟨es, h⟩ := (assigned_obedient profile buf comments entities).run_never_completed
    cases ho : (assign profile buf comments entities .never 0).outcome
    case completed => rfl
    case cancelled => simp [Poll.run, assigned, ho, Outcome.map] at h
  case effects =>
    intro found
    have hfound : found = giveAll profile buf entities comments :=
      assignedFrom_completed entities.toArray (k := 0) he hc (fun _ _ => .inl rfl)
        (Prod.ext (congrArg (Outcome.map fun _ => found) h) rfl)
    have htarget {before c after i} (hsplit : comments = before ++ c :: after)
        (hi : entityOf? c entities = some i) : found[i]? =
          entities[i]?.map (withPrototype profile buf c (searchEnd buf after)) := by
      subst hsplit
      exact hfound ▸ getElem?_giveAll hc hi
    have hother {i} (hi : ∀ c ∈ comments, entityOf? c entities ≠ some i) :
        found[i]? = entities[i]? :=
      hfound ▸ getElem?_giveAll_of_ne hi
    refine ⟨fun _ _ _ _ => htarget, fun _ => hother, List.forall₂_iff_get.mpr ⟨?length, ?gains⟩⟩
    case length => exact hfound ▸ length_giveAll.symm
    case gains =>
      intro i hi hi'
      have hi : entities[i]? = some (entities.get ⟨i, hi⟩) := List.getElem?_eq_getElem hi
      have hi' : found[i]? = some (found.get ⟨i, hi'⟩) := List.getElem?_eq_getElem hi'
      by_cases hc : ∃ c ∈ comments, entityOf? c entities = some i
      case pos =>
        obtain ⟨c, hmem, ht⟩ := hc
        obtain ⟨before, after, hsplit⟩ := List.append_of_mem hmem
        rw [htarget hsplit ht, hi, Option.map_some] at hi'
        exact Option.some.inj hi' ▸ gains_withPrototype ..
      case neg =>
        rw [hother fun c hmem ht => hc ⟨c, hmem, ht⟩, hi] at hi'
        exact Option.some.inj hi' ▸ ⟨rfl, fun _ => rfl⟩

-- The enum is not searched from its member, and the function comes before the end of the file.
theorem assign_one_by_one_enum :
    let text := "// Enum: A\n// B - b\nenum A { B };\n// Function: f\nint f (int a);".toList
    let comments : List Comment.Candidate := [.plain 1 3, .plain 4 5]
    let outer : Entity := .ofHeader "A" "enumeration" 1
    let member : Entity := { Entity.ofHeader "B" "constant" 2 with isEmbedded := true }
    let function : Entity := .ofHeader "f" "function" 4
    let entities := [outer, member, function]
    let found := (assign .builtinC (.ofChars text) comments entities .never 0).entities.toList
    comments.Pairwise (·.endLine ≤ ·.startLine) ∧ entities.Pairwise (·.line ≤ ·.line) ∧
      found[0]? = some { outer with prototype := some "enum A" } ∧
      found[1]? = some member ∧
      found[2]? = some { function with prototype := some "int f (int a)" } := by
  intro text comments outer member function entities found
  have hc : comments.Pairwise (·.endLine ≤ ·.startLine) := by decide
  have he : entities.Pairwise (·.line ≤ ·.line) := by
    simp [entities, outer, member, function, Entity.ofHeader]
  obtain ⟨hdone, -, h⟩ := assign_one_by_one .builtinC (.ofChars text) hc he
  obtain ⟨htarget, hother, -⟩ := h .never 0 hdone
  let enders : Enders := ⟨[";", "\x7b"], false⟩
  have henders : Profile.builtinC.endersFor? outer.kind = some enders ∧
      Profile.builtinC.endersFor? function.kind = some enders := by decide
  have hf : found? .builtinC (.ofChars text) outer.title.toList enders 3 4 =
      some "enum A".toList := by decide +kernel
  have hf' : found? .builtinC (.ofChars text) function.title.toList enders 5
      (searchEnd (.ofChars text) []) = some "int f (int a)".toList := by decide +kernel
  refine ⟨hc, he, ?enum, hother 1 (by decide), ?function⟩
  case enum =>
    refine (htarget [] _ _ 0 rfl (by decide)).trans (congrArg some ?_)
    exact withPrototype_of_found rfl henders.1 hf
  case function =>
    refine (htarget [_] _ _ 2 rfl (by decide)).trans (congrArg some ?_)
    exact withPrototype_of_found rfl henders.2 hf'

end SourceDocs.Prototype

import SourceDocs.Proofs.Contexts

namespace SourceDocs.Resolve

-- The list of all entities, those before some place resolved, and what is known there.
structure Pass where
  places : List Entity
  kept : List Bool
  scope : Option Symbol
  ofClass : Option Class
  parent : Option Nat

namespace Pass

def initial (es : List Entity) : Pass :=
  ⟨es, es.map fun _ => true, none, none, none⟩

def state (pass : Pass) : State :=
  ⟨pass.scope, pass.ofClass, pass.parent.bind (pass.places[·]?)⟩

def result (pass : Pass) : List Entity :=
  ((pass.places.zip pass.kept).filter (·.2)).map (·.1)

end Pass

variable (setting : Setting)

def step (pass : Pass) (i : Nat) : Pass :=
  match pass.places[i]? with
  | none => pass
  | some e =>
    match titleOf? e with
    | none => { pass with kept := pass.kept.set i false }
    | some title =>
      if e.isEmbedded then
        { pass with places := pass.places.set i (placeEmbedded setting pass.state e title) }
      else
        let (r, state) := placeOuter setting pass.state e title
        ⟨pass.places.set i r, pass.kept, state.scope, state.ofClass, some i⟩

def inPlace (es : List Entity) : List Entity :=
  ((List.range es.length).foldl (step setting) (.initial es)).result

variable {setting} {pass : Pass} {state : State} {e : Entity} {title : Symbol}
  {done : List (Entity × Bool)} {rest : List Entity}

-- The pass has come to the entities `rest`. What lies before is `done`, each entity with its mark.
structure Pass.At (pass : Pass) (done : List (Entity × Bool)) (rest : List Entity) : Prop where
  places_eq : pass.places = done.map (·.1) ++ rest
  kept_eq : pass.kept = done.map (·.2) ++ rest.map fun _ => true
  parent_lt : ∀ j ∈ pass.parent, j < done.length

def stay (done : List (Entity × Bool)) : List Entity :=
  (done.filter (·.2)).map (·.1)

theorem Pass.At.initial (es : List Entity) : (Pass.initial es).At [] es :=
  ⟨rfl, rfl, nofun⟩

theorem Pass.At.result_eq (h : pass.At done []) : pass.result = stay done := by
  simp [Pass.result, stay, h.places_eq, h.kept_eq, List.zip_map']

theorem Pass.At.getElem? (h : pass.At done (e :: rest)) : pass.places[done.length]? = some e := by
  simp [h.places_eq]

theorem parent_placeOuter :
    (placeOuter setting state e title).2.parent = some (placeOuter setting state e title).1 := by
  unfold placeOuter
  dsimp only
  split <;> rfl

namespace Pass.At

theorem step_none (h : pass.At done (e :: rest)) (ht : titleOf? e = none) :
    step setting pass done.length = { pass with kept := pass.kept.set done.length false } := by
  simp only [step, h.getElem?, ht]

theorem step_embedded (h : pass.At done (e :: rest)) (ht : titleOf? e = some title)
    (he : e.isEmbedded = true) : step setting pass done.length =
      { pass with
        places := pass.places.set done.length (placeEmbedded setting pass.state e title) } := by
  simp only [step, h.getElem?, ht, he, ↓reduceIte]

theorem step_outer (h : pass.At done (e :: rest)) (ht : titleOf? e = some title)
    (he : e.isEmbedded = false) : step setting pass done.length =
      let placed := placeOuter setting pass.state e title
      ⟨pass.places.set done.length placed.1, pass.kept, placed.2.scope, placed.2.ofClass,
        some done.length⟩ := by
  simp only [step, h.getElem?, ht, he, Bool.false_eq_true, ↓reduceIte]

theorem mark (h : pass.At done (e :: rest)) :
    { pass with kept := pass.kept.set done.length false }.At (done ++ [(e, false)]) rest where
  places_eq := by simp [h.places_eq]
  kept_eq := by simp [h.kept_eq]
  parent_lt j hj := by simpa using Nat.lt_succ_of_lt (h.parent_lt j hj)

theorem put (h : pass.At done (e :: rest)) (r : Entity) :
    { pass with places := pass.places.set done.length r }.At (done ++ [(r, true)]) rest where
  places_eq := by simp [h.places_eq]
  kept_eq := by simp [h.kept_eq]
  parent_lt j hj := by simpa using Nat.lt_succ_of_lt (h.parent_lt j hj)

-- The parent lies before the place, and so it is what it was.
theorem state_put (h : pass.At done (e :: rest)) (r : Entity) :
    { pass with places := pass.places.set done.length r }.state = pass.state := by
  unfold Pass.state
  congr 1
  cases hp : pass.parent
  case none => rfl
  case some j => simp [List.getElem?_set_ne (h.parent_lt j hp).ne']

theorem putOuter (h : pass.At done (e :: rest)) (r : Entity) (scope : Option Symbol)
    (ofClass : Option Class) :
    (Pass.mk (pass.places.set done.length r) pass.kept scope ofClass (some done.length)).At
      (done ++ [(r, true)]) rest where
  places_eq := (h.put r).places_eq
  kept_eq := (h.put r).kept_eq
  parent_lt := by simp

theorem state_putOuter (h : pass.At done (e :: rest)) (r : Entity) (scope : Option Symbol)
    (ofClass : Option Class) :
    (Pass.mk (pass.places.set done.length r) pass.kept scope ofClass (some done.length)).state =
      ⟨scope, ofClass, some r⟩ := by
  simp [Pass.state, h.places_eq]

-- One step in place does what resolving the next entity of the list does.
theorem step (setting : Setting) (h : pass.At done (e :: rest)) :
    ∃ entry, (step setting pass done.length).At (done ++ [entry]) rest ∧
      ∀ es, entities setting pass.state (e :: es) =
        stay [entry] ++ entities setting (Resolve.step setting pass done.length).state es := by
  cases ht : titleOf? e
  case none =>
    rw [h.step_none ht]
    exact ⟨(e, false), h.mark, entities_cons_none ht⟩
  case some title =>
    have ht' := ht
    rw [titleOf?] at ht'
    cases he : e.isEmbedded
    case true =>
      rw [h.step_embedded ht he]
      refine ⟨_, h.put _, fun es => ?_⟩
      rw [h.state_put]
      simp [entities, ht', he, stay]
    case false =>
      rw [h.step_outer ht he]
      refine ⟨_, h.putOuter _ _ _, fun es => ?_⟩
      rw [h.state_putOuter, ← parent_placeOuter]
      simp [entities, ht', he, stay]

end Pass.At

theorem foldl_step (h : pass.At done rest) :
    ((List.range' done.length rest.length).foldl (step setting) pass).result =
      stay done ++ entities setting pass.state rest := by
  induction rest generalizing pass done
  case nil => simp [h.result_eq, entities]
  case cons e rest ih =>
    obtain ⟨entry, h', he⟩ := h.step setting
    have ih := ih h'
    rw [List.length_append, List.length_singleton] at ih
    rw [List.length_cons, List.range'_succ, List.foldl_cons, ih, he]
    simp [stay]

theorem inPlace_eq_file (setting : Setting) (es : List Entity) :
    inPlace setting es = file setting es := by
  rw [inPlace, List.range_eq_range']
  exact foldl_step (.initial es)

theorem entities_survivors (state : State) (es : List Entity) :
    entities setting state (survivors es) = entities setting state es := by
  induction es generalizing state
  case nil => rfl
  case cons e es ih =>
    cases ht : titleOf? e
    case none =>
      have hs : survivors (e :: es) = survivors es := List.filter_cons_of_neg (by simp [ht])
      rw [hs, ih, entities_cons_none ht]
    case some title =>
      have hs : survivors (e :: es) = e :: survivors es := List.filter_cons_of_pos (by simp [ht])
      rw [titleOf?] at ht
      simp only [hs, entities, ht, ih]

-- The entities whose titles spell no symbol leave no trace: a file is resolved as if they had not
-- been there, also by the pass that keeps them in their places to the end. The others stay in their
-- order, with a symbol each, and nothing else about them is touched.
theorem unnamed_leave_no_trace (setting : Setting) (es : List Entity) :
    file setting es = file setting (survivors es) ∧ inPlace setting es = file setting es ∧
      List.Forall₂ SameSource (survivors es) (file setting es) ∧
      ∀ i : Fin (file setting es).length,
        ∃ symbol, ((file setting es).get i).symbol = some symbol := by
  refine ⟨(entities_survivors .initial es).symm, inPlace_eq_file setting es,
    entities_sameSource .initial es, fun i => ?_⟩
  obtain ⟨title, -, hr⟩ := rules_of_file_eq (file_eq_take_append setting es i)
  obtain ⟨symbol, h⟩ := hr.exists_reachable
  exact ⟨symbol, h.symbol_eq⟩

end SourceDocs.Resolve

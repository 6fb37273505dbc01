import Mathlib
import SourceDocs.Resolve

namespace SourceDocs.Resolve

def titleOf? (e : Entity) : Option Symbol :=
  Symbol.ofText? e.title.toList

def survivors (es : List Entity) : List Entity :=
  es.filter fun e => (titleOf? e).isSome

variable (setting : Setting)

-- The scope of a kind. A kind that is not known leaves the scope alone.
def Setting.scopeOf (kind : String) : Scope :=
  ((setting.kinds.get? kind).map (·.scope)).getD .normal

def Setting.decides (e : Entity) : Bool :=
  !e.isEmbedded && (setting.scopeOf e.kind = .start || setting.scopeOf e.kind = .stop)

-- The nearest of the entities before that decides on the scope.
def Setting.decider? (before : List Entity) : Option Entity :=
  before.reverse.find? setting.decides

def outer? (before : List Entity) : Option Entity :=
  before.reverse.find? (!·.isEmbedded)

def Setting.classOf? (e : Entity) : Option Class := do
  let kind ← setting.kinds.get? e.kind
  let hierarchy ← kind.hierarchy
  let title ← titleOf? e
  return ⟨hierarchy, title, setting.profile.caseSensitive⟩

def Setting.ambientScope (before : List Entity) : Option Symbol := do
  let d ← setting.decider? before
  if setting.scopeOf d.kind = .start then titleOf? d else none

def Setting.ambientClass (before : List Entity) : Option Class := do
  let d ← setting.decider? before
  if setting.scopeOf d.kind = .start then setting.classOf? d else none

structure Setting.Placed (e : Entity) (symbol : Symbol) (ofClass : Option Class)
    (prototype body : Option Symbol) : Prop where
  symbol_eq : e.symbol = some symbol
  ofClass_eq : e.ofClass = ofClass
  prototype_eq : e.prototypeContext = ⟨prototype, setting.usings⟩
  body_eq : e.bodyContext = ⟨body, setting.usings⟩

-- The scope in which the members of an enum live, of the enum itself and the scope around it.
def memberScope (own ambient : Option Symbol) : EnumPlacement → Option Symbol
  | .global => none
  | .underType => own
  | .underParent => ambient

-- What holds of an entity with this title after the entities before it.
inductive Setting.Rules (before : List Entity) (e : Entity) (title : Symbol) : Prop
  | normal (outer : e.isEmbedded = false) (scope : setting.scopeOf e.kind = .normal)
      (plain : setting.isEnum e.kind = false)
      (placed : setting.Placed e (title.under (setting.ambientScope before))
        (setting.ambientClass before) (setting.ambientScope before) (setting.ambientScope before))
  | enum (outer : e.isEmbedded = false) (scope : setting.scopeOf e.kind = .normal)
      (enum : setting.isEnum e.kind = true)
      (placed : setting.Placed e (title.under (setting.ambientScope before))
        (setting.ambientClass before) (setting.ambientScope before)
        (memberScope (some (title.under (setting.ambientScope before)))
          (setting.ambientScope before) setting.profile.enumValues))
  | alwaysGlobal (outer : e.isEmbedded = false) (scope : setting.scopeOf e.kind = .alwaysGlobal)
      (placed : setting.Placed e title (setting.ambientClass before) (setting.ambientScope before)
        (setting.ambientScope before))
  | start (outer : e.isEmbedded = false) (scope : setting.scopeOf e.kind = .start)
      (placed : setting.Placed e title (setting.classOf? e) none (some title))
  | stop (outer : e.isEmbedded = false) (scope : setting.scopeOf e.kind = .stop)
      (placed : setting.Placed e title none none none)
  | member (embedded : e.isEmbedded = true) (parent : Entity)
      (nearest : outer? before = some parent) (enum : setting.isEnum parent.kind = true)
      (placed :
        let scope := memberScope parent.symbol (setting.ambientScope before)
          setting.profile.enumValues
        setting.Placed e (title.under scope) (setting.ambientClass before) scope scope)
  | embedded (embedded : e.isEmbedded = true)
      (plain : ∀ parent, outer? before = some parent → setting.isEnum parent.kind = false)
      (placed : setting.Placed e (title.under (setting.ambientScope before))
        (setting.ambientClass before) (setting.ambientScope before) (setting.ambientScope before))

structure Setting.Reflects (state : State) (before : List Entity) : Prop where
  scope : state.scope = setting.ambientScope before
  ofClass : state.ofClass = setting.ambientClass before
  parent : state.parent = outer? before

def SameSource (e r : Entity) : Prop :=
  r = { e with
    symbol := r.symbol
    ofClass := r.ofClass
    prototypeContext := r.prototypeContext
    bodyContext := r.bodyContext }

variable {setting} {state : State} {before : List Entity} {e : Entity} {title : Symbol}

theorem sameSource_place (symbol : Symbol) (ofClass : Option Class) (prototype body : Context) :
    SameSource e (place e symbol ofClass prototype body) :=
  rfl

theorem placed_place (symbol : Symbol) (ofClass : Option Class) (prototype body : Option Symbol) :
    setting.Placed (place e symbol ofClass (setting.context prototype) (setting.context body))
      symbol ofClass prototype body :=
  ⟨rfl, rfl, rfl, rfl⟩

theorem decider?_concat (r : Entity) :
    setting.decider? (before ++ [r]) =
      if setting.decides r then some r else setting.decider? before := by
  cases h : setting.decides r <;> simp [Setting.decider?, h]

theorem outer?_concat (r : Entity) :
    outer? (before ++ [r]) = if r.isEmbedded then outer? before else some r := by
  cases h : r.isEmbedded <;> simp [outer?, h]

namespace Setting.Reflects

theorem initial : setting.Reflects .initial [] :=
  ⟨rfl, rfl, rfl⟩

-- An entity that does not decide on the scope changes at most the parent.
theorem concat_indecisive {r : Entity} (h : setting.Reflects state before)
    (hr : setting.decides r = false) :
    setting.Reflects { state with parent := if r.isEmbedded then state.parent else some r }
      (before ++ [r]) where
  scope := by simp [h.scope, ambientScope, decider?_concat, hr]
  ofClass := by simp [h.ofClass, ambientClass, decider?_concat, hr]
  parent := by simp [h.parent, outer?_concat]

theorem concat_start {r : Entity} (ho : r.isEmbedded = false)
    (hs : setting.scopeOf r.kind = .start) (ht : titleOf? r = some title) :
    setting.Reflects ⟨some title, setting.classOf? r, some r⟩ (before ++ [r]) where
  scope := by simp [ambientScope, decider?_concat, decides, ho, hs, ht]
  ofClass := by simp [ambientClass, decider?_concat, decides, ho, hs]
  parent := by simp [outer?_concat, ho]

theorem concat_stop {r : Entity} (ho : r.isEmbedded = false)
    (hs : setting.scopeOf r.kind = .stop) :
    setting.Reflects ⟨none, none, some r⟩ (before ++ [r]) where
  scope := by simp [ambientScope, decider?_concat, decides, ho, hs]
  ofClass := by simp [ambientClass, decider?_concat, decides, ho, hs]
  parent := by simp [outer?_concat, ho]

end Setting.Reflects

theorem sameSource_placeEmbedded : SameSource e (placeEmbedded setting state e title) := by
  unfold placeEmbedded
  dsimp only
  split <;> exact sameSource_place ..

theorem sameSource_placeOuter : SameSource e (placeOuter setting state e title).1 := by
  unfold placeOuter
  dsimp only
  split <;> exact sameSource_place ..

theorem placeEmbedded_rules (h : setting.Reflects state before) (he : e.isEmbedded = true) :
    setting.Rules before (placeEmbedded setting state e title) title := by
  unfold placeEmbedded
  rw [h.parent, h.scope, h.ofClass]
  cases hp : outer? before
  case none => exact .embedded he (by simp [hp]) (placed_place ..)
  case some parent =>
    cases hk : setting.isEnum parent.kind
    case false =>
      simp only [Option.filter, hk, Bool.false_eq_true, ↓reduceIte]
      exact .embedded he (by simp [hp, hk]) (placed_place ..)
    case true =>
      simp only [Option.filter, hk, ↓reduceIte]
      cases hv : setting.profile.enumValues
      all_goals exact .member he parent hp hk (by rw [hv]; exact placed_place ..)

theorem enumBody_context (symbol : Symbol) (ambient : Option Symbol) :
    enumBody setting symbol (setting.context ambient) =
      setting.context (memberScope (some symbol) ambient setting.profile.enumValues) := by
  unfold enumBody memberScope
  cases setting.profile.enumValues <;> rfl

theorem classOf?_eq (ht : titleOf? e = some title) :
    setting.classOf? e = ((setting.kinds.get? e.kind).bind (·.hierarchy)).map fun h =>
      ⟨h, title, setting.profile.caseSensitive⟩ := by
  cases h : setting.kinds.get? e.kind
  case none => simp [Setting.classOf?, h]
  case some kind => cases hk : kind.hierarchy <;> simp [Setting.classOf?, h, ht, hk]

theorem placeOuter_normal (hs : setting.scopeOf e.kind = .normal) :
    placeOuter setting state e title =
      let symbol := title.under state.scope
      let body := if setting.isEnum e.kind then
          memberScope (some symbol) state.scope setting.profile.enumValues
        else
          state.scope
      let r := place e symbol state.ofClass (setting.context state.scope) (setting.context body)
      (r, { state with parent := some r }) := by
  unfold placeOuter
  rw [Setting.scopeOf] at hs
  simp only [hs, enumBody_context]
  cases he : setting.isEnum e.kind <;> rw [Setting.isEnum] at he <;> simp [he]

theorem placeOuter_alwaysGlobal (hs : setting.scopeOf e.kind = .alwaysGlobal) :
    placeOuter setting state e title =
      let r := place e title state.ofClass (setting.context state.scope)
        (setting.context state.scope)
      (r, { state with parent := some r }) := by
  unfold placeOuter
  rw [Setting.scopeOf] at hs
  simp only [hs]

theorem placeOuter_start (hs : setting.scopeOf e.kind = .start) (ht : titleOf? e = some title) :
    placeOuter setting state e title =
      let r := place e title (setting.classOf? e) (setting.context none)
        (setting.context (some title))
      (r, ⟨some title, setting.classOf? e, some r⟩) := by
  unfold placeOuter
  rw [Setting.scopeOf] at hs
  simp only [hs, classOf?_eq ht]

theorem placeOuter_stop (hs : setting.scopeOf e.kind = .stop) :
    placeOuter setting state e title =
      let r := place e title none (setting.context none) (setting.context none)
      (r, ⟨none, none, some r⟩) := by
  unfold placeOuter
  rw [Setting.scopeOf] at hs
  simp only [hs]

theorem placeOuter_rules (h : setting.Reflects state before) (ho : e.isEmbedded = false)
    (ht : titleOf? e = some title) :
    setting.Rules before (placeOuter setting state e title).1 title ∧
      setting.Reflects (placeOuter setting state e title).2
        (before ++ [(placeOuter setting state e title).1]) := by
  -- Only an entity of the last two scopes changes more than the parent.
  have indecisive {symbol ofClass prototype body} (hd : setting.decides e = false) :
      setting.Reflects { state with parent := some (place e symbol ofClass prototype body) }
        (before ++ [place e symbol ofClass prototype body]) := by
    simpa [place, ho] using h.concat_indecisive (r := place e symbol ofClass prototype body) hd
  cases hs : setting.scopeOf e.kind
  case normal =>
    rw [placeOuter_normal hs]
    refine ⟨?_, indecisive (by simp [Setting.decides, hs])⟩
    rw [h.scope, h.ofClass]
    cases he : setting.isEnum e.kind
    case false => exact .normal ho hs he (placed_place ..)
    case true => exact .enum ho hs he (placed_place ..)
  case alwaysGlobal =>
    rw [placeOuter_alwaysGlobal hs]
    refine ⟨?_, indecisive (by simp [Setting.decides, hs])⟩
    rw [h.scope, h.ofClass]
    exact .alwaysGlobal ho hs (placed_place ..)
  case start =>
    rw [placeOuter_start hs ht]
    exact ⟨.start ho hs (placed_place ..), .concat_start (r := place ..) ho hs ht⟩
  case stop =>
    rw [placeOuter_stop hs]
    exact ⟨.stop ho hs (placed_place ..), .concat_stop (r := place ..) ho hs⟩

theorem entities_cons_none (ht : titleOf? e = none) (es : List Entity) :
    entities setting state (e :: es) = entities setting state es := by
  rw [titleOf?] at ht
  rw [entities, ht]

theorem entities_cons_some (h : setting.Reflects state before) (ht : titleOf? e = some title) :
    ∃ r state', (∀ es, entities setting state (e :: es) = r :: entities setting state' es) ∧
      SameSource e r ∧ setting.Rules before r title ∧ setting.Reflects state' (before ++ [r]) := by
  have ht' := ht
  rw [titleOf?] at ht'
  cases he : e.isEmbedded
  case false =>
    refine ⟨_, _, fun es => ?_, sameSource_placeOuter, placeOuter_rules h he ht⟩
    simp [entities, ht', he]
  case true =>
    refine ⟨_, state, fun es => ?_, sameSource_placeEmbedded, placeEmbedded_rules h he, ?_⟩
    · simp [entities, ht', he]
    · have hr : (placeEmbedded setting state e title).isEmbedded = true := by
        rw [sameSource_placeEmbedded (e := e)]
        exact he
      simpa [hr] using h.concat_indecisive (r := placeEmbedded setting state e title)
        (by simp [Setting.decides, hr])

theorem entities_sameSource (h : setting.Reflects state before) (es : List Entity) :
    List.Forall₂ SameSource (survivors es) (entities setting state es) := by
  induction es generalizing state before
  case nil => exact .nil
  case cons e es hi =>
    cases ht : titleOf? e
    case none =>
      rw [entities_cons_none ht, survivors, List.filter_cons_of_neg (by simp [ht])]
      exact hi h
    case some title =>
      have ⟨r, state', hr, hs, _, h'⟩ := entities_cons_some h ht
      rw [hr, survivors, List.filter_cons_of_pos (by simp [ht])]
      exact .cons hs (hi h')

-- The induction is on the entities that are still to come; those before are in the state.
theorem entities_rules (h : setting.Reflects state before) {es pre post : List Entity} {r : Entity}
    (hr : entities setting state es = pre ++ r :: post) :
    ∃ title, titleOf? r = some title ∧ setting.Rules (before ++ pre) r title := by
  induction es generalizing state before pre
  case nil => simp [entities] at hr
  case cons e es hi =>
    cases ht : titleOf? e
    case none => exact hi h (entities_cons_none ht es ▸ hr)
    case some title =>
      have ⟨r', state', he, hs, hr', h'⟩ := entities_cons_some h ht
      rw [he] at hr
      cases pre
      case nil =>
        obtain ⟨rfl, -⟩ := List.cons.inj hr
        refine ⟨title, ?_, by simpa using hr'⟩
        rw [hs]
        exact ht
      case cons first pre =>
        obtain ⟨rfl, hp⟩ := List.cons.inj hr
        simpa using hi h' hp

-- Every entity of a resolved file has the symbol, the class and the contexts that the rules give it
-- after the entities before it, and the resolved file has the entities whose titles spell symbols,
-- in their order.
theorem file_follows_rules (setting : Setting) (es : List Entity) :
    List.Forall₂ SameSource (survivors es) (file setting es) ∧
      ∀ i : Fin (file setting es).length,
        ∃ title, titleOf? (file setting es)[i] = some title ∧
          setting.Rules ((file setting es).take i) (file setting es)[i] title := by
  refine ⟨entities_sameSource .initial es, fun i => ?_⟩
  have hr : file setting es =
      (file setting es).take i ++ (file setting es)[i] :: (file setting es).drop (i + 1) := by
    simp
  exact entities_rules .initial hr

end SourceDocs.Resolve

import SourceDocs.Entity
import SourceDocs.Kind

namespace SourceDocs.Resolve

-- What the entities so far say about the next one.
structure State where
  scope : Option Symbol
  ofClass : Option Class
  -- The last entity that is not embedded.
  parent : Option Entity

def State.initial : State :=
  ⟨none, none, none⟩

structure Setting where
  kinds : KindTable
  profile : Profile
  usings : List Using

variable (setting : Setting)

def Setting.context (scope : Option Symbol) : Context :=
  ⟨scope, setting.usings⟩

def Setting.isEnum (kind : String) : Bool :=
  (setting.kinds.get? kind).any (·.isEnum)

def place (entity : Entity) (symbol : Symbol) (ofClass : Option Class) (prototype body : Context) :
    Entity :=
  { entity with
    symbol := some symbol
    ofClass := ofClass
    prototypeContext := prototype
    bodyContext := body }

-- Only the members of enums are placed by the profile.
def placeEmbedded (state : State) (entity : Entity) (title : Symbol) : Entity :=
  let within (scope : Option Symbol) : Entity :=
    place entity (title.under scope) state.ofClass (setting.context scope) (setting.context scope)
  match state.parent.filter (setting.isEnum ·.kind), setting.profile.enumValues with
  -- The parent is an enum; any other entity has its members in the scope around it.
  | some _, .global => within none
  | some parent, .underType => within parent.symbol
  | _, _ => within state.scope

def enumBody (symbol : Symbol) (ambient : Context) : Context :=
  match setting.profile.enumValues with
  | .underType => setting.context (some symbol)
  | .global => setting.context none
  | .underParent => ambient

def placeOuter (state : State) (entity : Entity) (title : Symbol) : Entity × State :=
  let ambient := setting.context state.scope
  let global := setting.context none
  let kind := setting.kinds.get? entity.kind
  match (kind.map (·.scope)).getD .normal with
  | .normal =>
    let symbol := title.under state.scope
    let body := if kind.any (·.isEnum) then enumBody setting symbol ambient else ambient
    let entity := place entity symbol state.ofClass ambient body
    (entity, { state with parent := some entity })
  | .alwaysGlobal =>
    let entity := place entity title state.ofClass ambient ambient
    (entity, { state with parent := some entity })
  | .start =>
    let ofClass := (kind.bind (·.hierarchy)).map fun h =>
      ⟨h, title, setting.profile.caseSensitive⟩
    let entity := place entity title ofClass global (setting.context (some title))
    (entity, ⟨some title, ofClass, some entity⟩)
  | .stop =>
    let entity := place entity title none global global
    (entity, ⟨none, none, some entity⟩)

-- An entity whose title spells no symbol is left out and changes nothing.
def entities (state : State) : List Entity → List Entity
  | [] => []
  | entity :: rest =>
    match Symbol.ofText? entity.title.toList with
    | none => entities state rest
    | some title =>
      if entity.isEmbedded then
        placeEmbedded setting state entity title :: entities state rest
      else
        let (entity, state) := placeOuter setting state entity title
        entity :: entities state rest

def file (es : List Entity) : List Entity :=
  entities setting .initial es

end SourceDocs.Resolve

import SourceDocs.Prototype.Basic
import SourceDocs.Symbol.Class
import SourceDocs.Symbol.Context

namespace SourceDocs

structure Entity where
  title : String
  kind : String
  line : Nat
  -- Is it defined within another entity, as the members of an enum are?
  isEmbedded : Bool
  body : Option String
  prototype : Option String
  parsed : Option Prototype
  symbol : Option Symbol
  ofClass : Option Class
  prototypeContext : Context
  bodyContext : Context

namespace Entity

def ofHeader (title kind : String) (line : Nat) : Entity where
  title := title
  kind := kind
  line := line
  isEmbedded := false
  body := none
  prototype := none
  parsed := none
  symbol := none
  ofClass := none
  prototypeContext := .global []
  bodyContext := .global []

def withBody (entity : Entity) (body : List Char) : Entity :=
  { entity with body := if Text.isBlank body then none else some (String.ofList body) }

end Entity
end SourceDocs

import SourceDocs.Document
import SourceDocs.Render.Json

namespace SourceDocs

open Render

-- A field that is left out where there is no value.
def Render.Json.optionalField {α : Type} (key : String) (f : α → Json) :
    Option α → List (String × Json)
  | some a => [(key, f a)]
  | none => []

def Symbol.toJson (s : Symbol) : Json :=
  .text (toString s)

def Class.toJson (c : Class) : Json :=
  .object [("hierarchy", .text c.hierarchy), ("symbol", c.symbol.toJson)]

def Using.toJson : Using → Json
  | within scope => .object [("kind", .text "add_prefix"), ("prefix", scope.toJson)]
  | renamed name target =>
    .object [("kind", .text "replace_prefix"), ("from", name.toJson), ("to", target.toJson)]

def Context.toJson (c : Context) : Json :=
  .object (("scope", .ofOption Symbol.toJson c.scope) ::
    if c.usings.isEmpty then [] else [("usings", .array (c.usings.map Using.toJson))])

def Comment.Candidate.toJson (c : Comment.Candidate) : Json :=
  .object [("start_line", .number c.startLine), ("end_line", .number c.endLine),
    ("javadoc", .bool c.javadoc), ("xml", .bool c.xml), ("claimed", .bool c.claimed)]

namespace Prototype

def Style.name : Style → String
  | .c => "c"
  | .pascal => "pascal"

def textJson (cs : Option (List Char)) : Json :=
  .ofOption (fun cs => .text (String.ofList cs)) cs

def parameterJson (p : Prototype) (k : Nat) : Json :=
  .object [("name", textJson (p.parameterName? k)), ("type", textJson (p.parameterType? k)),
    ("default", textJson (p.parameterDefault? k))]

def toJson (p : Prototype) : Json :=
  .object [("name", textJson p.name?), ("return_type", textJson p.returnType?),
    ("style", .ofOption (fun s => .text s.name) p.style),
    ("parameters", .array ((List.range p.parameters.length).map p.parameterJson))]

end Prototype

def Entity.toJson (e : Entity) : Json :=
  .object <|
    [("title", .text e.title), ("kind", .text e.kind), ("comment_line", .number e.line)] ++
    (if e.isEmbedded then [("is_embedded", .bool true)] else []) ++
    Json.optionalField "body" .text e.body ++
    Json.optionalField "prototype" .text e.prototype ++
    Json.optionalField "parsed" Prototype.toJson e.parsed ++
    [("symbol", .ofOption Symbol.toJson e.symbol)] ++
    Json.optionalField "class" Class.toJson e.ofClass ++
    [("prototype_context", e.prototypeContext.toJson), ("body_context", e.bodyContext.toJson)]

def Document.toJson (d : Document) : Json :=
  .object [("path", .text d.path), ("language", .text d.language),
    ("comments", .array (d.comments.map (·.toJson))),
    ("entities", .array (d.entities.map (·.toJson)))]

def Document.structured (d : Document) : String :=
  d.toJson.pretty 0 ++ "\n"

end SourceDocs

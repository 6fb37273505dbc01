import SourceDocs.Document
import SourceDocs.Text.Search

namespace SourceDocs

namespace Prototype

def parameterLine (p : Prototype) (k : Nat) : String :=
  let after (sign : String) : Option (List Char) → String
    | some cs => sign ++ String.ofList cs
    | none => ""
  "  parameter: " ++ after "" (p.parameterName? k) ++ after ": " (p.parameterType? k) ++
    after " = " (p.parameterDefault? k) ++ "\n"

def summary (p : Prototype) : String :=
  let lines := (List.range p.parameters.length).map p.parameterLine
  let returned :=
    match p.parameters, p.returnType? with
    | _ :: _, some cs => "  returns: " ++ String.ofList cs ++ "\n"
    | _, _ => ""
  String.join lines ++ returned

end Prototype

namespace Entity

def bodySummary (body : String) : String :=
  String.join <| (Text.lines body.toList).map fun line =>
    if line.isEmpty then "\n" else "  | " ++ String.ofList line ++ "\n"

def summary (separator : String) (e : Entity) : String :=
  let name := (e.symbol.map (·.format separator)).getD e.title
  let prototype := (e.prototype.map fun s => "  prototype: " ++ s ++ "\n").getD ""
  e.kind ++ " " ++ name ++ " (line " ++ toString e.line ++ ")\n" ++ prototype ++
    (e.parsed.map Prototype.summary).getD "" ++ (e.body.map bodySummary).getD ""

end Entity

def Document.summary (d : Document) : String :=
  let separator := if d.memberOperator = "" then "." else d.memberOperator
  d.path ++ " [" ++ d.language ++ "]\n" ++
    String.join (d.entities.map fun e => "\n" ++ e.summary separator)

end SourceDocs

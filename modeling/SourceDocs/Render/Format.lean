import SourceDocs.Render.Structured
import SourceDocs.Render.Summary

namespace SourceDocs.Render

inductive Format
  | json
  | text
deriving DecidableEq, Repr

namespace Format

def ofName? : String → Option Format
  | "json" => some json
  | "text" => some text
  | "txt" => some text
  | _ => none

def unknownMessage (name : String) : String :=
  "unknown format: " ++ name ++ ". Use json or text"

def extension : Format → String
  | json => "json"
  | text => "txt"

def render : Format → Document → String
  | json, d => d.structured
  | text, d => d.summary

end Format
end SourceDocs.Render

import SourceDocs.Config.Value
import SourceDocs.Profile.Basic

namespace SourceDocs.Config

variable (format : Format)

-- Two texts by their names. Other fields do not matter.
def pair? (first second : String) (v : Value) : Option (String × String) := do
  let fields ← v.fields? format [first, second]
  return (← (← fields.lookup first).text?, ← (← fields.lookup second).text?)

def blockSymbols? (v : Value) : Option (List BlockSymbols) := do
  (← v.list?).mapM fun item => (pair? format "open" "close" item).map fun p => ⟨p.1, p.2⟩

def linePairs? (v : Value) : Option (List LinePair) := do
  (← v.list?).mapM fun item => (pair? format "first" "following" item).map fun p => ⟨p.1, p.2⟩

def enders? (v : Value) : Option (List (String × Enders)) := do
  let entries ← (← v.table?).mapM fun (kind, list) => do
    return (kind, Enders.ofList (← list.texts?))
  return Text.tableOf entries

def scope? (v : Value) : Option Scope := do
  match ← v.choice? format with
  | "normal" => some .normal
  | "start" => some .start
  | "end" => some .stop
  | "always_global" => some .alwaysGlobal
  | _ => none

def support? (v : Value) : Option Support := do
  match ← v.choice? format with
  | "basic" => some .basic
  | "text_only" => some .textOnly
  | "container" => some .container
  | _ => none

def enumPlacement? (v : Value) : Option EnumPlacement := do
  match ← v.choice? format with
  | "global" => some .global
  | "under_type" => some .underType
  | "under_parent" => some .underParent
  | _ => none

def kindFields : List String := ["name", "keywords", "scope", "enum", "hierarchy"]

def setKindField? (kind : Kind) (field : String) (v : Value) : Option Kind :=
  match field with
  | "name" => do return { kind with name := ← v.text? }
  | "keywords" => do return { kind with keywords := ← v.texts? }
  | "scope" => do return { kind with scope := ← scope? format v }
  | "enum" => do return { kind with isEnum := ← v.bool? }
  | "hierarchy" => do return { kind with hierarchy := ← v.optional? Value.text? }
  | _ => none

def kind? (v : Value) : Option Kind := do
  let fields ← v.fields? format kindFields
  guard (fields.lookup "name").isSome
  fields.foldlM (fun kind f => setKindField? format kind f.1 f.2) ⟨"", [], .normal, false, none⟩

def profileFields : List String := [
  "name", "extensions", "support", "line_comments", "block_comments", "javadoc_line_comments",
  "javadoc_block_comments", "xml_line_comments", "block_comments_nest", "member_operator",
  "line_extender", "case_sensitive", "enum_values", "prototype_enders", "type_keywords"]

def setProfileField? (p : Profile) (field : String) (v : Value) : Option Profile :=
  match field with
  | "name" => do return { p with name := ← v.text? }
  | "extensions" => do return { p with extensions := ← v.texts? }
  | "support" => do return { p with support := ← support? format v }
  | "line_comments" => do return { p with lineComments := ← v.texts? }
  | "block_comments" => do return { p with blockComments := ← blockSymbols? format v }
  | "javadoc_line_comments" => do return { p with javadocLineComments := ← linePairs? format v }
  | "javadoc_block_comments" => do
    return { p with javadocBlockComments := ← blockSymbols? format v }
  | "xml_line_comments" => do return { p with xmlLineComments := ← v.texts? }
  | "block_comments_nest" => do return { p with blockCommentsNest := ← v.bool? }
  | "member_operator" => do return { p with memberOperator := ← v.text? }
  | "line_extender" => do return { p with lineExtender := ← v.optional? Value.text? }
  | "case_sensitive" => do return { p with caseSensitive := ← v.bool? }
  | "enum_values" => do return { p with enumValues := ← enumPlacement? format v }
  | "prototype_enders" => do return { p with prototypeEnders := ← enders? v }
  | "type_keywords" => do return { p with typeKeywords := Text.setOf (← v.texts?) }
  | _ => none

-- A profile; what it does not say is as in the plain profile.
def profile? (v : Value) : Option Profile := do
  let fields ← v.fields? format profileFields
  fields.foldlM (fun p f => setProfileField? format p f.1 f.2) .plain

end SourceDocs.Config

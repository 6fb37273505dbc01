import SourceDocs.Error
import SourceDocs.Text.Search

namespace SourceDocs

-- How an entity changes the scope that the entities after it live in.
inductive Scope
  | normal
  | start
  | stop
  -- Is global itself and leaves the scope alone.
  | alwaysGlobal
deriving DecidableEq, Repr

structure Kind where
  name : String
  keywords : List String
  scope : Scope
  isEnum : Bool
  hierarchy : Option String
deriving DecidableEq, Repr

structure KindTable where
  kinds : List Kind
deriving DecidableEq, Repr

namespace KindTable

def get? (table : KindTable) (name : String) : Option Kind :=
  table.kinds.find? fun k => Text.sameIgnoringCase k.name name

def contains (table : KindTable) (name : String) : Bool :=
  (table.get? name).isSome

-- The kind that a header keyword introduces, in any ASCII case and also in the plural.
def byKeyword? (table : KindTable) (keyword : List Char) : Option Kind :=
  let word := keyword.map Char.toLower
  table.kinds.find? fun k =>
    k.keywords.any fun w => w.toList = word || w.toList ++ ['s'] = word

def insert (table : KindTable) (kind : Kind) : KindTable :=
  ⟨go table.kinds⟩
where
  go : List Kind → List Kind
    | [] => [kind]
    | k :: ks => if Text.sameIgnoringCase k.name kind.name then kind :: ks else k :: go ks

-- Only a kind that opens a scope can open a class hierarchy.
def validate (table : KindTable) : Except ProfileError Unit :=
  match table.kinds.find? fun k => k.hierarchy.isSome && k.scope ≠ .start with
  | some k => .error (.hierarchyWithoutScope k.name)
  | none => .ok ()

def builtin : KindTable := ⟨[
  ⟨"file", ["file", "program", "script"], .alwaysGlobal, false, none⟩,
  ⟨"group", ["group"], .normal, false, none⟩,
  ⟨"section", ["section", "title"], .stop, false, none⟩,
  ⟨"class", ["class", "structure", "struct", "package"], .start, false, some "class"⟩,
  ⟨"interface", ["interface"], .start, false, some "class"⟩,
  ⟨"namespace", ["namespace", "module"], .start, false, none⟩,
  ⟨"function", ["function", "func", "method", "procedure", "routine", "constructor", "destructor",
    "operator"], .normal, false, none⟩,
  ⟨"variable", ["variable", "var", "field", "member"], .normal, false, none⟩,
  ⟨"property", ["property", "prop"], .normal, false, none⟩,
  ⟨"constant", ["constant", "const"], .normal, false, none⟩,
  ⟨"type", ["type", "typedef"], .normal, false, none⟩,
  ⟨"enumeration", ["enumeration", "enum"], .normal, true, none⟩,
  ⟨"macro", ["macro", "define"], .alwaysGlobal, false, none⟩]⟩

end KindTable
end SourceDocs

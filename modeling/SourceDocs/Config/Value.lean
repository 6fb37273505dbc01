namespace SourceDocs.Config

inductive Value
  | null
  | bool (b : Bool)
  -- A number or a date. No setting has such a value, so which one it is does not matter.
  | scalar
  | text (s : String)
  | list (items : List Value)
  | table (entries : List (String × Value))
deriving Inhabited

inductive Format
  | json
  | toml
deriving DecidableEq, Repr

namespace Value

def text? : Value → Option String
  | text s => some s
  | _ => none

def bool? : Value → Option Bool
  | bool b => some b
  | _ => none

def list? : Value → Option (List Value)
  | list items => some items
  | _ => none

def table? : Value → Option (List (String × Value))
  | table entries => some entries
  | _ => none

def texts? (v : Value) : Option (List String) := do
  (← v.list?).mapM text?

def optional? {α : Type} (decode : Value → Option α) : Value → Option (Option α)
  | null => some none
  | v => (decode v).map some

-- A choice by name, which may also be written as the only key of a table that holds nothing.
def choice? (format : Format) : Value → Option String
  | text s => some s
  | table [(s, v)] =>
    match format, v with
    | .json, null => some s
    | .toml, list [] => some s
    | .toml, table [] => some s
    | _, _ => none
  | _ => none

-- The fields of a record, by name or as a list in the order of `names`. A list may be short; if it
-- is long, what is too much is an error in one format and unread in the other.
def fields? (format : Format) (names : List String) : Value → Option (List (String × Value))
  | table entries => some entries
  | list items =>
    if format = .json ∧ names.length < items.length then none else some (names.zip items)
  | _ => none

end Value
end SourceDocs.Config

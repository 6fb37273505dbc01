namespace SourceDocs.Text

def insertEntry {α : Type} (key : String) (value : α) : List (String × α) → List (String × α)
  | [] => [(key, value)]
  | (k, v) :: rest =>
    if key < k then (key, value) :: (k, v) :: rest
    else if k = key then (key, value) :: rest
    else (k, v) :: insertEntry key value rest

-- The entries as a table in which the last one of a key counts.
def tableOf {α : Type} (entries : List (String × α)) : List (String × α) :=
  entries.foldl (fun table e => insertEntry e.1 e.2 table) []

def insertText (text : String) : List String → List String
  | [] => [text]
  | t :: rest =>
    if text < t then text :: t :: rest
    else if t = text then t :: rest
    else t :: insertText text rest

def setOf (texts : List String) : List String :=
  texts.foldl (fun set t => insertText t set) []

end SourceDocs.Text

import SourceDocs.Text.Search

namespace SourceDocs.Files

inductive Component
  | root
  | current
  | parent
  | normal (name : String)
deriving DecidableEq, Repr

namespace Component

def rank : Component → Nat
  | root => 0
  | current => 1
  | parent => 2
  | normal _ => 3

def name : Component → String
  | normal name => name
  | _ => ""

def lt (a b : Component) : Bool :=
  a.rank < b.rank || (a.rank = b.rank && a.name < b.name)

def text : Component → String
  | root => "/"
  | current => "."
  | parent => ".."
  | normal name => name

end Component

namespace Path

def component? (piece : List Char) : Option Component :=
  if piece = [] || piece = ['.'] then none
  else if piece = ['.', '.'] then some .parent
  else some (.normal (String.ofList piece))

-- Repeated slashes and dots between components do not count, but a dot at the beginning does.
def components (path : String) : List Component :=
  let pieces := Text.splitBy (· = '/') path.toList
  let first :=
    match path.toList, pieces with
    | '/' :: _, _ => [Component.root]
    | _, ['.'] :: _ => [Component.current]
    | _, _ => []
  first ++ pieces.filterMap component?

def lt (a b : String) : Bool :=
  go (components a) (components b)
where
  go : List Component → List Component → Bool
    | [], [] => false
    | [], _ :: _ => true
    | _ :: _, [] => false
    | x :: xs, y :: ys => x.lt y || (x = y && go xs ys)

def same (a b : String) : Bool :=
  components a = components b

def fileName? (path : String) : Option String :=
  match (components path).getLast? with
  | some (.normal name) => some name
  | _ => none

-- What follows the last dot of the name. A dot at its beginning does not count.
def extension? (path : String) : Option String := do
  let name ← fileName? path
  let pieces := Text.splitBy (· = '.') name.toList
  let last ← pieces.getLast?
  guard (pieces.dropLast ≠ [] && pieces.dropLast ≠ [[]])
  return String.ofList last

def join (directory name : String) : String :=
  if directory = "" || directory.toList.getLast? = some '/' then directory ++ name
  else directory ++ "/" ++ name

def ofComponents (cs : List Component) : String :=
  cs.foldl (fun path c => join path c.text) ""

def parents (path : String) : List String :=
  let cs := components path
  (List.range (cs.length - 1)).map fun n => ofComponents (cs.take (n + 1))

def withoutTrailingSlashes (path : String) : String :=
  match path.toList.reverse.dropWhile (· = '/') with
  | [] => path
  | cs => String.ofList cs.reverse

-- The name keeps its extension. Backslashes count as slashes here.
def outputName (path : String) : String :=
  String.ofList (((Text.splitBy (fun c => c = '/' || c = '\\') path.toList).getLast?).getD [])

end Path
end SourceDocs.Files

import SourceDocs.Files.Path

namespace SourceDocs.Files

inductive Tree
  | file (content : ByteArray)
  -- What is read from it is empty, and what is written to it is lost.
  | device
  | directory (entries : List (String × Tree))

namespace Tree

def empty : Tree :=
  directory []

def isFile : Tree → Bool
  | file _ => true
  | _ => false

def isDirectory : Tree → Bool
  | directory _ => true
  | _ => false

def child? (name : String) : Tree → Option Tree
  | directory entries => entries.lookup name
  | _ => none

def find? (tree : Tree) : (names : List String) → Option Tree
  | [] => some tree
  | name :: names => (tree.child? name).bind (find? · names)

def replace (name : String) (tree : Tree) : List (String × Tree) → List (String × Tree)
  | [] => [(name, tree)]
  | (n, t) :: rest => if n = name then (name, tree) :: rest else (n, t) :: replace name tree rest

-- Puts a tree at a place. Directories on the way that do not exist are made.
def put? (content : Tree) : (names : List String) → Tree → Option Tree
  | [], _ => some content
  | name :: names, directory entries => do
    let sub ← put? content names ((entries.lookup name).getD empty)
    return directory (replace name sub entries)
  | _ :: _, _ => none

def workingPlace : List String :=
  ["tmp", "work"]

-- All there is if nothing but what lies in the working directory is known.
def around (working : Tree) : Tree :=
  directory [("dev", directory [("null", device)]), ("tmp", directory [("work", working)])]

def working (tree : Tree) : Tree :=
  (tree.find? workingPlace).getD empty

def nameLimit : Nat :=
  255

def pathLimit : Nat :=
  4095

-- The place that a path leads to, from a place on. It leads only through directories that exist,
-- but there need not be anything under the last name.
def follow? (tree : Tree) : (pieces : List (List Char)) → (place : List String) →
    Option (List String)
  | [], place => some place
  | piece :: pieces, place =>
    if !(tree.find? place).any isDirectory then none
    else if piece = [] || piece = ['.'] then follow? tree pieces place
    else if piece = ['.', '.'] then follow? tree pieces place.dropLast
    else if nameLimit < (String.ofList piece).utf8ByteSize then none
    else follow? tree pieces (place ++ [String.ofList piece])

-- A path leads on from the working directory unless it begins with a slash. The empty path leads
-- nowhere.
def place? (tree : Tree) (path : String) : Option (List String) :=
  if path = "" || pathLimit < path.utf8ByteSize then none
  else
    let start := if path.toList.head? = some '/' then [] else workingPlace
    follow? tree (Text.splitBy (· = '/') path.toList) start

def entry? (tree : Tree) (path : String) : Option Tree :=
  (tree.place? path).bind tree.find?

def hasFile (tree : Tree) (path : String) : Bool :=
  (tree.entry? path).any isFile

def hasDirectory (tree : Tree) (path : String) : Bool :=
  (tree.entry? path).any isDirectory

def read? (tree : Tree) (path : String) : Option String :=
  match tree.entry? path with
  | some (file content) => String.fromUTF8? content
  | some device => some ""
  | _ => none

def names (tree : Tree) (path : String) : List String :=
  match tree.entry? path with
  | some (directory entries) => entries.map (·.1)
  | _ => []

def makeOne? (tree : Tree) (path : String) : Option Tree :=
  if tree.hasDirectory path then some tree
  else do
    let place ← tree.place? (Path.withoutTrailingSlashes path)
    guard (tree.find? place).isNone
    put? empty place tree

def makeDirectory? (tree : Tree) (path : String) : Option Tree :=
  (Path.parents path ++ [path]).foldlM makeOne? tree

def write? (tree : Tree) (path : String) (content : String) : Option Tree := do
  let place ← tree.place? path
  match tree.find? place with
  | some (directory _) => none
  | some device => some tree
  | _ => put? (file content.toUTF8) place tree

mutual

def files (path : String) : Tree → List (String × ByteArray)
  | file content => [(path, content)]
  | device => []
  | directory entries => filesIn path entries

def filesIn (path : String) : List (String × Tree) → List (String × ByteArray)
  | [] => []
  | (name, tree) :: rest => files (Path.join path name) tree ++ filesIn path rest

end

def changes (before after : Tree) : List (String × ByteArray) :=
  let old := before.files ""
  (after.files "").filter fun f => !old.any fun g => g.1 = f.1 && g.2.data = f.2.data

end Tree
end SourceDocs.Files

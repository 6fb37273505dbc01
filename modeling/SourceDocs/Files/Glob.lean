import SourceDocs.Files.Tree

namespace SourceDocs.Files.Glob

structure Range where
  first : Char
  last : Char
deriving DecidableEq, Repr

def Range.contains (r : Range) (c : Char) : Bool :=
  r.first ≤ c && c ≤ r.last

inductive Item
  | char (c : Char)
  | anyChar
  | anySequence
  | within (ranges : List Range)
  | except (ranges : List Range)
deriving DecidableEq, Repr

-- In a component `?` stands for any character, `*` for any characters, and a set in brackets for
-- one of its characters or, with a leading `!`, for any other.
inductive Pattern
  | items (items : List Item)
  -- Any number of directories.
  | recursive
deriving DecidableEq, Repr

def ranges : List Char → List Range
  | [] => []
  | a :: '-' :: b :: rest => ⟨a, b⟩ :: ranges rest
  | a :: rest => ⟨a, a⟩ :: ranges rest

-- The first character belongs to the set also if it is a bracket.
def set? : List Char → Option (List Char × List Char)
  | [] => none
  | c :: rest =>
    let others := rest.takeWhile (· ≠ ']')
    match rest.drop others.length with
    | _ :: rest => some (c :: others, rest)
    | [] => none

theorem length_set? {cs set rest : List Char} (h : set? cs = some (set, rest)) :
    rest.length < cs.length := by
  unfold set? at h
  split at h
  case h_1 => simp at h
  case h_2 c tail =>
    dsimp only at h
    split at h
    case h_1 x more heq =>
      have hlen := congrArg List.length heq
      simp only [List.length_drop, List.length_cons] at hlen
      cases h
      simp only [List.length_cons]
      omega
    case h_2 => simp at h

def items? (cs : List Char) : Option (List Item) :=
  match cs with
  | [] => some []
  | '?' :: rest => (items? rest).map (.anyChar :: ·)
  | '*' :: rest => if rest.head? = some '*' then none else (items? rest).map (.anySequence :: ·)
  | '[' :: '!' :: rest =>
    match _h : set? rest with
    | some (set, rest) => (items? rest).map (.except (ranges set) :: ·)
    | none => none
  | '[' :: rest =>
    match _h : set? rest with
    | some (set, rest) => (items? rest).map (.within (ranges set) :: ·)
    | none => none
  | c :: rest => (items? rest).map (.char c :: ·)
termination_by cs.length
decreasing_by
  case _ => simp
  case _ => simp
  case _ =>
    have := length_set? _h
    simp only [List.length_cons]
    omega
  case _ =>
    have := length_set? _h
    simp only [List.length_cons]
    omega
  case _ => simp

def component? (cs : List Char) : Option Pattern :=
  if cs = ['*', '*'] then some .recursive else (items? cs).map .items

-- A slash at the end of a pattern opens no component, and the empty pattern is one empty component.
def parse? (pattern : String) : Option (List Pattern) :=
  let pieces := Text.splitBy (· = '/') pattern.toList
  let pieces := if pieces.getLast? = some [] && 2 ≤ pieces.length then pieces.dropLast else pieces
  pieces.mapM component?

def Item.accepts : Item → Char → Bool
  | char c, d => c = d
  | anyChar, _ => true
  | anySequence, _ => true
  | within rs, d => rs.any (·.contains d)
  | except rs, d => !rs.any (·.contains d)

-- Given whether the rest fits the name and each of its endings, the longest first: does it fit them
-- behind any characters?
def behindAny : List Bool → List Bool
  | [] => []
  | b :: bs =>
    let later := behindAny bs
    (b || later.head?.getD false) :: later

def behindOne (accepts : Char → Bool) : List Char → List Bool → List Bool
  | c :: name, _ :: bs => (accepts c && bs.head?.getD false) :: behindOne accepts name bs
  | _, _ => [false]

-- Do the name and each of its endings, the longest first, fit the items?
def fitsEndings (name : List Char) : List Item → List Bool
  | [] => name.map (fun _ => false) ++ [true]
  | .anySequence :: items => behindAny (fitsEndings name items)
  | item :: items => behindOne item.accepts name (fitsEndings name items)

def fits (items : List Item) (name : List Char) : Bool :=
  (fitsEndings name items).head?.getD false

theorem fitsEndings_cons (c : Char) (name : List Char) (items : List Item) :
    fitsEndings (c :: name) items = fits items (c :: name) :: fitsEndings name items := by
  suffices h : ∃ b, fitsEndings (c :: name) items = b :: fitsEndings name items by
    obtain ⟨b, h⟩ := h
    simp [fits, h]
  induction items with
  | nil => exact ⟨false, rfl⟩
  | cons item items ih =>
    obtain ⟨b, ih⟩ := ih
    cases item <;> simp only [fitsEndings, ih, behindAny, behindOne] <;> exact ⟨_, rfl⟩

theorem fitsEndings_nil (items : List Item) : fitsEndings [] items = [fits items []] := by
  suffices h : ∃ b, fitsEndings [] items = [b] by
    obtain ⟨b, h⟩ := h
    simp [fits, h]
  induction items with
  | nil => exact ⟨true, rfl⟩
  | cons item items ih =>
    obtain ⟨b, ih⟩ := ih
    cases item <;> simp only [fitsEndings, ih, behindAny, behindOne] <;> exact ⟨_, rfl⟩

@[simp]
theorem fits_nil (name : List Char) : fits [] name = name.isEmpty := by
  cases name <;> simp [fits, fitsEndings]

@[simp]
theorem fits_anySequence_nil (items : List Item) :
    fits (.anySequence :: items) [] = fits items [] := by
  rw [fits, fitsEndings, fitsEndings_nil]
  simp [behindAny]

-- A sequence stands for nothing, or for the first character and what it then stands for.
@[simp]
theorem fits_anySequence_cons (items : List Item) (c : Char) (name : List Char) :
    fits (.anySequence :: items) (c :: name) =
      (fits items (c :: name) || fits (.anySequence :: items) name) := by
  rw [fits, fitsEndings, fitsEndings_cons]
  rfl

@[simp]
theorem fits_cons_nil {item : Item} (h : item ≠ .anySequence) (items : List Item) :
    fits (item :: items) [] = false := by
  cases item with
  | anySequence => contradiction
  | _ => rfl

@[simp]
theorem fits_cons_cons {item : Item} (h : item ≠ .anySequence) (items : List Item) (c : Char)
    (name : List Char) :
    fits (item :: items) (c :: name) = (item.accepts c && fits items name) := by
  rw [fits, fitsEndings, fitsEndings_cons]
  · rfl
  · exact h

def literal? : List Item → Option (List Char)
  | [] => some []
  | .char c :: items => (literal? items).map (c :: ·)
  | _ :: _ => none

-- A path, and the components that it and what lies below it have still to fit. There are none if it
-- is known to fit.
abbrev Lead := String × Option (List Pattern)

variable (tree : Tree)

def below (directory name : String) : String :=
  if Path.same directory "." then name else Path.join directory name

def insertSorted (name : String) : List String → List String
  | [] => [name]
  | n :: rest => if name < n then name :: n :: rest else n :: insertSorted name rest

def sortedNames (directory : String) : List String :=
  (tree.names directory).foldr insertSorted []

-- The leads from a directory, in the order in which they are followed. A component without a choice
-- leads on at once. A component with a dot at its beginning may also stand for the directory itself
-- or the one above.
def leads (directory : String) : List Pattern → List Lead
  | [] => []
  | p :: rest =>
    let lead (path : String) : List Lead :=
      if rest.isEmpty then [(path, none)] else leads path rest
    let children := (sortedNames tree directory).map fun n => (below directory n, some (p :: rest))
    match p with
    | .recursive => if tree.hasDirectory directory then children else []
    | .items items =>
      match literal? items with
      | some name =>
        let name := String.ofList name
        let path := below directory name
        let isThere :=
          if name = "." || name = ".." then tree.hasDirectory directory
          else (tree.entry? path).isSome
        if isThere then lead path else []
      | none =>
        if !tree.hasDirectory directory then []
        else
          let dots := if items.head? = some (.char '.') then ["..", "."] else []
          ((dots.filter fun d => fits items d.toList).flatMap fun d =>
            lead (Path.join directory d)) ++ children

def follow (onlyDirectories : Bool) : (fuel : Nat) → Lead → List String
  | 0, _ => []
  | fuel + 1, (path, patterns) =>
    let isDirectory := tree.hasDirectory path
    let found : List String := if onlyDirectories && !isDirectory then [] else [path]
    let go (ls : List Lead) : List String := ls.flatMap (follow onlyDirectories fuel)
    let fit (ps : List Pattern) : List String :=
      match ps, Path.fileName? path with
      | .items items :: rest, some name =>
        if !fits items name.toList then []
        else if rest.isEmpty then found
        else go (leads tree path rest)
      | _, _ => []
    match patterns with
    | none => found
    | some [] => []
    | some (.items items :: rest) => fit (.items items :: rest)
    | some (.recursive :: rest) =>
      -- Several such components in a row say no more than one.
      let rest := rest.dropWhile (· = .recursive)
      let here := if !rest.isEmpty then fit rest else if isDirectory then [path] else []
      here ++ if isDirectory then go (leads tree path (.recursive :: rest)) else []

mutual

def height : Tree → Nat
  | .directory entries => heightOf entries
  | _ => 0

def heightOf : List (String × Tree) → Nat
  | [] => 0
  | (_, t) :: rest => max (height t + 1) (heightOf rest)

end

-- A pattern leads on from the working directory unless it begins with a slash.
def paths? (pattern : String) : Option (List String) := do
  let (start, rest) :=
    match pattern.toList with
    | '/' :: rest => ("/", String.ofList rest)
    | _ => (".", pattern)
  let patterns ← parse? rest
  let onlyDirectories := pattern.toList.getLast? = some '/'
  -- Each lead is one component or one directory further than the one before.
  let fuel := (patterns.length + 1) * (height tree + 2)
  return (leads tree start patterns).flatMap (follow tree onlyDirectories fuel)

end SourceDocs.Files.Glob

import SourceDocs.Prototype.Mark
import SourceDocs.Text.Trim

namespace SourceDocs

structure Prototype where
  buffer : Buffer
  roles : Roles
  style : Option Prototype.Style
  parameters : List (Nat × Nat)
  -- The brackets of the parameter list. A list that is never closed ends with the text.
  list : Option (Nat × Nat)

namespace Prototype

abbrev Marked := Token × Option Role

variable (p : Prototype)

def marked (start stop : Nat) : List Marked :=
  ((p.buffer.tokens.extract start stop).toList).zipIdx.map fun (t, k) =>
    (t, p.roles.get (start + k))

def tokens : List Marked :=
  p.marked 0 p.buffer.size

def appendSpaced (out : List Char) (space : Bool) (cs : List Char) : List Char :=
  if space && !out.isEmpty then out ++ ' ' :: cs else out ++ cs

-- The texts of the tokens whose roles satisfy `keep`, with single spaces for blanks between them. A
-- token with another role ends them.
def collect (keep : Role → Bool) (out : List Char) (space : Bool) : List Marked → List Char
  | [] => out
  | (t, role) :: rest =>
    if role.any keep then collect keep (appendSpaced out space t.chars) false rest
    else if t.kind = .blank then collect keep out true rest
    else if !out.isEmpty && role.isSome then out
    else collect keep out space rest

def roleText? (role : Role) (start stop : Nat) : Option (List Char) :=
  match collect (· = role) [] false (p.marked start stop) with
  | [] => none
  | cs => some cs

def isOpening (role : Option Role) : Bool :=
  role = some .openingTypeSuffix || role = some .openingModifier

def isClosing (role : Option Role) : Bool :=
  role = some .closingTypeSuffix || role = some .closingModifier

-- The texts of the tokens that belong to a type, with everything between brackets, of which `depth`
-- are open.
def collectType (depth : Nat) (out : List Char) (space : Bool) : List Marked → List Char
  | [] => out
  | (t, role) :: rest =>
    let depth :=
      if isOpening role then depth + 1 else if isClosing role then depth - 1 else depth
    if t.kind = .blank then collectType depth out true rest
    else if 0 < depth || isClosing role || role.any Role.isOfType then
      collectType depth (appendSpaced out space t.chars) false rest
    else collectType depth out space rest

def typeText? (start stop : Nat) : Option (List Char) :=
  match Text.trim (collectType 0 [] false (p.marked start stop)) with
  | [] => none
  | cs => some cs

def headStop : Nat :=
  match p.list with
  | some (opener, _) => opener
  | none => p.buffer.size

def name? : Option (List Char) :=
  p.roleText? .name 0 p.headStop

-- The type after the parameter list, if there is one, and otherwise the type before the name.
def returnType? : Option (List Char) :=
  let afterList := p.list.bind fun (_, closer) => p.typeText? (closer + 1) p.buffer.size
  afterList.or (p.typeText? 0 p.headStop)

def parameterName? (k : Nat) : Option (List Char) := do
  let (start, stop) ← p.parameters[k]?
  p.roleText? .name start stop

-- Modifiers before a colon belong to the parameter and not to its type.
def parameterType? (k : Nat) : Option (List Char) := do
  let (start, stop) ← p.parameters[k]?
  let colon := Buffer.seek (p.roles.get · = some .nameTypeSeparator) start stop
  p.typeText? (if colon < stop then colon + 1 else start) stop

def parameterDefault? (k : Nat) : Option (List Char) := do
  let (start, stop) ← p.parameters[k]?
  p.roleText? .defaultValue start stop

def runs (role : Role) : List (List Char) :=
  go [] p.tokens
where
  go (current : List Char) : List Marked → List (List Char)
    | [] => if current.isEmpty then [] else [current]
    | (t, r) :: rest =>
      if r = some role then go (current ++ t.chars) rest
      else if current.isEmpty then go [] rest
      else current :: go [] rest

def types : List (List Char) :=
  go [] p.tokens
where
  go (current : List Char) : List Marked → List (List Char)
    | [] => [current]
    | (t, some .typeQualifier) :: rest => go (current ++ t.chars) rest
    | (t, some .type) :: rest =>
      if (rest.head?.bind (·.2)) = some .type then go (current ++ t.chars) rest
      else (current ++ t.chars) :: go [] rest
    | _ :: rest => current :: go [] rest

def linkableTypes (profile : Profile) : List (List Char) :=
  p.types.foldl (fun found t =>
    if t.isEmpty || profile.isBuiltinType t || found.contains t then found else found ++ [t]) []

end Prototype
end SourceDocs

import SourceDocs.Comment.Candidate
import SourceDocs.Comment.Tags
import SourceDocs.Entity
import SourceDocs.Kind
import SourceDocs.Unicode.Alphanumeric

namespace SourceDocs.Header

-- At least three bytes of the same character, which is neither alphanumeric nor white space.
def isRule : List Char → Bool
  | [] => false
  | c :: rest =>
    !Unicode.isAlphanumeric c && !Unicode.isWhiteSpace c &&
      3 ≤ (String.ofList (c :: rest)).utf8ByteSize && rest.all (· = c)

def withoutStar (cs : List Char) : List Char :=
  match cs with
  | '*' :: rest => if rest.head?.all Text.isSpace then Text.trimStart rest else cs
  | _ => cs

def lineText (buf : Buffer) (tags : Comment.Tags) (line : Nat) : List Char :=
  let start := buf.lineStart line
  let positions := List.range' start (buf.lineEnd line - start)
  if positions.any (tags.get · = some .decoration) then []
  else
    let own := positions.filter fun i => tags.get i = none && !buf.isLineBreak i
    let text := withoutStar (Text.trim (own.flatMap buf.chars))
    if isRule text then [] else text

def lines (buf : Buffer) (tags : Comment.Tags) (c : Comment.Candidate) : List (Nat × List Char) :=
  c.lines.map fun line => (line, lineText buf tags line)

-- One word of letters, or two with a space between them, before a colon.
def keyword? (cs : List Char) : Option (List Char × List Char) :=
  let first := cs.takeWhile Char.isAlpha
  if first.isEmpty then none
  else
    match cs.dropWhile Char.isAlpha with
    | ':' :: rest => some (first, rest)
    | ' ' :: more =>
      let second := more.takeWhile Char.isAlpha
      match more.dropWhile Char.isAlpha with
      | ':' :: rest => if second.isEmpty then none else some (first ++ ' ' :: second, rest)
      | _ => none
    | _ => none

def afterSpaces? : List Char → Option (List Char)
  | c :: rest => if Text.isSpace c then some (rest.dropWhile Text.isSpace) else none
  | [] => none

-- The kind that a keyword names. `Private Function` is a function.
def kindOf? (kinds : KindTable) (keyword : List Char) : Option Kind :=
  (kinds.byKeyword? keyword).or
    (kinds.byKeyword? ((Text.splitBy (· = ' ') keyword).getLast?.getD []))

def header? (kinds : KindTable) (text : List Char) : Option (Kind × List Char) := do
  let (keyword, rest) ← keyword? text
  let title ← afterSpaces? rest
  guard (title.head?.any (!Unicode.isWhiteSpace ·))
  let kind ← kindOf? kinds keyword
  return (kind, Text.dropEndWhile Text.isSpace title)

-- Each line such as `Name - description` in the body of an enum defines a member.
def member? (text : List Char) : Option (List Char × List Char) := do
  let name := text.takeWhile (!Unicode.isWhiteSpace ·)
  guard !name.isEmpty
  match ← afterSpaces? (text.drop name.length) with
  | '-' :: rest => return (name, Text.dropEndWhile Text.isSpace (← afterSpaces? rest))
  | _ => none

structure Section where
  line : Nat
  kind : Kind
  title : List Char
  body : List (List Char)

def sections (kinds : KindTable) : List (Nat × List Char) → List (List Char) × List Section
  | [] => ([], [])
  | (line, text) :: rest =>
    let (lead, found) := sections kinds rest
    match header? kinds text with
    | some (kind, title) => ([], ⟨line, kind, title, lead⟩ :: found)
    | none => (text :: lead, found)

def memberKind : String := "constant"

def members (line : Nat) : List (List Char) → List Entity
  | [] => []
  | text :: rest =>
    match member? text with
    | some (name, description) =>
      let entity := Entity.ofHeader (String.ofList name) memberKind line
      { entity with isEmbedded := true }.withBody description :: members (line + 1) rest
    | none => members (line + 1) rest

def Section.entities (kinds : KindTable) (s : Section) : List Entity :=
  let body := Text.trim (List.intercalate ['\n'] s.body)
  let entity := (Entity.ofHeader (String.ofList s.title) s.kind.name s.line).withBody body
  -- The first kind of that name decides, also if a later one has the keyword.
  let isEnum := (kinds.get? s.kind.name).any (·.isEnum)
  entity :: if isEnum && kinds.contains memberKind then members (s.line + 1) s.body else []

def entitiesOf (buf : Buffer) (tags : Comment.Tags) (kinds : KindTable) (c : Comment.Candidate) :
    List Entity :=
  (sections kinds (lines buf tags c)).2.flatMap (Section.entities kinds)

def recognize (buf : Buffer) (tags : Comment.Tags) (kinds : KindTable)
    (comments : List Comment.Candidate) : List Comment.Candidate × List Entity :=
  let claim (c : Comment.Candidate) : Comment.Candidate :=
    { c with claimed := c.claimed || !(entitiesOf buf tags kinds c).isEmpty }
  (comments.map claim, comments.flatMap (entitiesOf buf tags kinds))

end SourceDocs.Header

import SourceDocs.Prototype.Mark
import SourceDocs.Text.Trim

namespace SourceDocs.Prototype

variable (profile : Profile) (buf : Buffer)

def extender? (i : Nat) : Option String :=
  profile.lineExtender.filter (buf.matchesAt i)

-- Is the extender at `i` an underscore that is part of an identifier?
def isInIdentifier (i : Nat) (extender : String) : Bool :=
  extender = "_" && ((0 < i && isIdentifier buf (i - 1)) || isIdentifier buf (i + 1))

theorem lt_afterChars_of_extender? {i : Nat} {s : String} (h : extender? profile buf i = some s) :
    i < buf.afterChars i s.utf8ByteSize :=
  Skip.lt_afterChars_of_matchesAt buf (Option.filter_eq_some_iff.1 h).2

def isDirection (word : List Char) : Bool :=
  ["in", "out", "ref", "inout", "in-out", "in/out", "in out"].any
    (·.toList = word.map Char.toLower)

-- Annotations for a checker and directions of parameters say something about the prototype.
def isTelling (content : List Char) : Bool :=
  (2 ≤ content.length && content.head? = some '@' && content.getLast? = some '@') ||
    isDirection (Text.dropEndWhile Text.isSpace (content.dropWhile Text.isSpace))

def collapse : List Char → List Char
  | [] => []
  | c :: rest =>
    if !Unicode.isWhiteSpace c then c :: collapse rest
    else if rest.head?.any Unicode.isWhiteSpace then collapse rest
    else ' ' :: collapse rest

def keptComment? (comment : List Char) : Option (List Char) := do
  let symbols ← profile.blockComments.find? fun s =>
    s.opener.toList.isPrefixOf comment && s.closer.toList.isSuffixOf comment
  let opener := symbols.opener.toList
  let closer := symbols.closer.toList
  let content := (comment.drop opener.length).take (comment.length - closer.length - opener.length)
  guard (isTelling content)
  return opener ++ collapse content ++ closer

-- The text with a space at its end, unless it has one or is empty.
def withSpace (out : List Char) : List Char :=
  if out.isEmpty || out.getLast? = some ' ' then out else out ++ [' ']

-- Line breaks, line extenders and most comments become a single space, and strings are copied as
-- they are.
def normalizeFrom (stop : Nat) (out : List Char) (i : Nat) : List Char :=
  if i < stop then
    if buf.isLineBreak i || buf.isBlank i then normalizeFrom stop (withSpace out) (i + 1)
    else
      match _h : extender? profile buf i with
      | some s =>
        let out := if isInIdentifier buf i s then out ++ s.toList else withSpace out
        normalizeFrom stop out (buf.afterChars i s.utf8ByteSize)
      | none =>
        match _h : Skip.blockComment? profile buf i with
        | some j =>
          let out :=
            match keptComment? profile (buf.slice i (min j stop)) with
            | some kept => out ++ kept
            | none => withSpace out
          normalizeFrom stop out (min j stop)
        | none =>
          match _h : Skip.lineComment? profile buf i with
          | some j => normalizeFrom stop (withSpace out) (min j stop)
          | none =>
            match _h : Skip.string? buf i with
            | some j => normalizeFrom stop (out ++ buf.slice i (min j stop)) (min j stop)
            | none => normalizeFrom stop (out ++ buf.chars i) (i + 1)
  else
    out
termination_by stop - i
decreasing_by
  case _ => omega
  case _ =>
    have := lt_afterChars_of_extender? profile buf _h
    omega
  case _ =>
    have := Skip.lt_blockComment? profile buf _h
    omega
  case _ =>
    have := Skip.lt_lineComment? profile buf _h
    omega
  case _ =>
    have := Skip.lt_string? buf _h
    omega
  case _ => omega

def normalize (start stop : Nat) : List Char :=
  Text.trimEnd (normalizeFrom profile buf stop [] start)

end SourceDocs.Prototype

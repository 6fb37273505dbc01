import SourceDocs.Symbol.Parameters
import SourceDocs.Text.Search
import SourceDocs.Unicode.Lowercase

namespace SourceDocs.Prototype

def afterQualifiers? (before : Option Char) : List Char → Option (List Char)
  | [] => none
  | c :: rest =>
    (afterQualifiers? (some c) rest).or
      (if (c = '.' || (c = ':' && before = some ':')) && !Text.isBlank rest then some rest
        else none)

def withoutSigil : List Char → List Char
  | [] => []
  | [c] => [c]
  | c :: rest => if c = '$' || c = '@' || c = '%' then rest else c :: rest

def undecorated (title : List Char) : List Char :=
  let name := (Symbol.splitParameters (Text.trim title)).1
  withoutSigil (Text.trim ((afterQualifiers? none name).getD name))

-- Characters of a word, where case does not count: the long s and the Kelvin sign are a form of `s`
-- and `k`.
def isWordChar (c : Char) : Bool :=
  c.isAlphanum || c = '_' || c = 'ſ' || c = '\u212a'

-- What becomes of the text after the word `operator`: the character that is written against it, and
-- the text behind it. Of blanks before a word only the last one stays.
def operatorSign? (cs : List Char) : Option (Char × List Char) :=
  let spaces := cs.takeWhile Text.isSpace
  let rest := cs.dropWhile Text.isSpace
  match spaces, rest with
  | [], _ => none
  | _, c :: after =>
    if !isWordChar c then some (c, after)
    -- The last of several blanks counts as the sign itself.
    else if 2 ≤ spaces.length then spaces.getLast?.map (·, rest)
    else none
  | _, [] => if 2 ≤ spaces.length then spaces.getLast?.map (·, rest) else none

theorem length_operatorSign? {cs after : List Char} {c : Char}
    (h : operatorSign? cs = some (c, after)) : after.length ≤ cs.length := by
  have hle := (List.dropWhile_sublist Text.isSpace (l := cs)).length_le
  unfold operatorSign? at h
  grind

def joinOperators (cs : List Char) : List Char :=
  match cs with
  | [] => []
  | c :: rest =>
    if ((c :: rest).take 8).map Char.toLower = "operator".toList then
      match _h : operatorSign? ((c :: rest).drop 8) with
      | some (sign, after) => (c :: rest).take 8 ++ sign :: joinOperators after
      | none => c :: joinOperators rest
    else
      c :: joinOperators rest
termination_by cs.length
decreasing_by
  case _ =>
    have := length_operatorSign? _h
    simp only [List.length_drop, List.length_cons] at *
    omega
  case _ => simp
  case _ => simp

-- Does the code hold the title, without regard to case? `operator +` counts as `operator+`, and
-- `A.prototype.b` as `A.b`.
def titleMatches (title code : List Char) : Bool :=
  let title := Unicode.lowercase (undecorated title)
  let code := Unicode.lowercase code
  if title.isEmpty then false
  else if Text.contains title code then true
  else if Text.contains "operator".toList title then
    Text.contains (joinOperators title) (joinOperators code)
  else
    Text.contains ".prototype.".toList code &&
      Text.contains title (Text.replaceFirst ".prototype.".toList ['.'] code)

end SourceDocs.Prototype

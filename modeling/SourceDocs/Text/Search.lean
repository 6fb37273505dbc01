namespace SourceDocs.Text

def sameIgnoringCase (a b : String) : Bool :=
  a.toList.map Char.toLower == b.toList.map Char.toLower

def contains (needle : List Char) : List Char → Bool
  | [] => needle.isEmpty
  | c :: cs => needle.isPrefixOf (c :: cs) || contains needle cs

def replaceFirst (needle replacement : List Char) : List Char → List Char
  | [] => []
  | c :: cs =>
    if needle.isPrefixOf (c :: cs) then
      replacement ++ (c :: cs).drop needle.length
    else
      c :: replaceFirst needle replacement cs

-- The pieces of the text between the characters that satisfy `p`, of which there is always one more
-- than there are such characters.
def splitBy (p : Char → Bool) : List Char → List (List Char)
  | [] => [[]]
  | c :: cs =>
    match splitBy p cs with
    | [] => [[c]]
    | piece :: pieces => if p c then [] :: piece :: pieces else (c :: piece) :: pieces

-- The lines of a text. A line break at its end opens no further line, and a carriage return before
-- a line break belongs to it.
def lines (cs : List Char) : List (List Char) :=
  let pieces := splitBy (· = '\n') cs
  let ended := pieces.dropLast.map fun line =>
    if line.getLast? = some '\r' then line.dropLast else line
  -- What follows the last line break is a line only if there is something.
  ended ++ (pieces.getLast?.filter (!·.isEmpty)).toList

end SourceDocs.Text

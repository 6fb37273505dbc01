import SourceDocs.Unicode.WhiteSpace

namespace SourceDocs.Text

open Unicode

def dropEndWhile (p : Char → Bool) (cs : List Char) : List Char :=
  (cs.reverse.dropWhile p).reverse

def trimStart (cs : List Char) : List Char :=
  cs.dropWhile isWhiteSpace

def trimEnd (cs : List Char) : List Char :=
  dropEndWhile isWhiteSpace cs

def trim (cs : List Char) : List Char :=
  trimEnd (trimStart cs)

def isBlank (cs : List Char) : Bool :=
  cs.all isWhiteSpace

def isSpace (c : Char) : Bool :=
  c == ' ' || c == '\t'

end SourceDocs.Text

namespace SourceDocs.Comment

-- The lines of a comment, from `startLine` up to, and without, `endLine`.
structure Candidate where
  startLine : Nat
  endLine : Nat
  javadoc : Bool
  xml : Bool
  claimed : Bool
deriving DecidableEq, Repr

namespace Candidate

def plain (startLine endLine : Nat) : Candidate :=
  ⟨startLine, endLine, false, false, false⟩

-- What is read as Javadoc may also be read as XML.
def asJavadoc (c : Candidate) : Candidate :=
  { c with javadoc := true, xml := true }

def asXml (c : Candidate) : Candidate :=
  { c with xml := true }

def containsLine (c : Candidate) (line : Nat) : Bool :=
  c.startLine ≤ line && line < c.endLine

def lineCount (c : Candidate) : Nat :=
  c.endLine - c.startLine

def lines (c : Candidate) : List Nat :=
  List.range' c.startLine c.lineCount

end Candidate
end SourceDocs.Comment

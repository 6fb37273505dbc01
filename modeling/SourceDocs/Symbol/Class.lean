import SourceDocs.Symbol.Basic
import SourceDocs.Unicode.Lowercase

namespace SourceDocs

structure Class where
  hierarchy : String
  symbol : Symbol
  caseSensitive : Bool
deriving DecidableEq, Repr

namespace Class

def foldedSegments (c : Class) : List (List Char) :=
  c.symbol.segments.map fun s => Unicode.lowercase s.toList

-- Case counts only if it counts for both.
def same (a b : Class) : Bool :=
  a.hierarchy = b.hierarchy &&
    if a.caseSensitive && b.caseSensitive then a.symbol = b.symbol
    else a.foldedSegments = b.foldedSegments

def key (c : Class) : String × List (List Char) :=
  (c.hierarchy, c.foldedSegments)

end Class
end SourceDocs

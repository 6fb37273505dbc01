import SourceDocs.Buffer
import SourceDocs.Text.Quoted

namespace SourceDocs

-- Unlike a plain position, a cursor can also stand before the first token. No step fails: the ends
-- of the text hold it.
inductive Cursor
  | front
  | position (i : Nat)
deriving DecidableEq, Repr

namespace Cursor

-- The place in numbers, where the front is the one below zero.
def place : Cursor → Int
  | front => -1
  | position i => i

def index : Cursor → Nat
  | front => 0
  | position i => i

instance : Ord Cursor where
  compare a b := compare a.place b.place

variable (buf : Buffer)

def onToken (i : Nat) : Cursor :=
  position (min i buf.size)

def kind? : Cursor → Option Token.Kind
  | front => none
  | position i => buf.kind? i

def chars : Cursor → List Char
  | front => []
  | position i => buf.chars i

def isChar (s : Char) : Cursor → Bool
  | front => false
  | position i => buf.isChar i s

def isToken (s : String) : Cursor → Bool
  | front => false
  | position i => buf.isToken i s

def line (c : Cursor) : Nat :=
  buf.lineOf c.index

def nextBy (n : Nat) : Cursor → Cursor
  | front => match n with
    | 0 => front
    | n + 1 => position (min n buf.size)
  | position i => position (min (i + n) buf.size)

def next (c : Cursor) : Cursor :=
  c.nextBy buf 1

def previous : Cursor → Cursor
  | front => front
  | position 0 => front
  | position (i + 1) => position i

def nextByChars (n : Nat) : Cursor → Cursor
  | front => front
  | position i => position (buf.afterChars i n)

def matchLength? (literal : String) (ignoreCase : Bool) : Cursor → Option Nat
  | front => none
  | position i => buf.matchLength? i literal ignoreCase

def matchAny? (literals : List String) (ignoreCase : Bool) (c : Cursor) : Option Nat :=
  literals.findIdx? fun l => (c.matchLength? buf l ignoreCase).isSome

def afterBlanks (limit : Nat) : Cursor → Cursor
  | front => front
  | position i => position (buf.afterBlanks i limit)

def beforeBlanks (start : Nat) : Cursor → Cursor
  | front => front
  | position i => position (buf.beforeBlanks start i)

def sliceTo (c stop : Cursor) : List Char :=
  buf.slice c.index stop.index

def kindName : Option Token.Kind → String
  | some .text => "Text"
  | some .blank => "Whitespace"
  | some .lineBreak => "LineBreak"
  | some .symbol => "Symbol"
  | none => "Null"

def describe (c : Cursor) : String :=
  "Cursor(" ++ toString c.place ++ ", " ++ kindName (c.kind? buf) ++ ", " ++
    String.ofList (Text.quote (c.chars buf)) ++ ")"

end Cursor
end SourceDocs

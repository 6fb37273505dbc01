import SourceDocs.Text.Bracket
import SourceDocs.Text.Trim

namespace SourceDocs.Symbol

-- Reads backwards over a bracketed block of which the closing brackets in `closers` have been
-- passed. Gives the opening bracket of the whole block and the text before it, last character
-- first.
def openingOf? : (closers back : List Char) → Option (Char × List Char)
  | _, [] => none
  | closers, c :: back =>
    if Text.isClosing c then
      openingOf? (c :: closers) back
    else
      match Text.closing? c with
      | none => openingOf? closers back
      | some closer =>
        match closers with
        | [] => none
        | innermost :: outer =>
          if innermost ≠ closer then none
          else if outer = [] then some (c, back)
          else openingOf? outer back

def endsInOperator (back : List Char) : Bool :=
  ((back.dropWhile (· = ' ')).take 8).map Char.toLower == "rotarepo".toList

-- The text before a bracketed block at the end of a text. A text that is in brackets as a whole has
-- none, and the brackets of `operator<` and `operator<>` are part of the name.
def beforeParameters? (text : List Char) : Option (List Char) :=
  match (Text.trimEnd text).reverse with
  | [] => none
  | last :: back =>
    if Text.isClosing last then
      match openingOf? [last] back with
      | none => none
      | some (opener, before) =>
        -- In `operator <string>` the brackets are no parameters.
        if opener = '<' ∧ endsInOperator before then none
        else if before = [] then none
        else some before.reverse
    else
      none

def parametersIndex? (text : List Char) : Option Nat :=
  (beforeParameters? text).map fun before => (String.ofList before).utf8ByteSize

def splitParameters (text : List Char) : List Char × Option (List Char) :=
  match beforeParameters? text with
  | some before => (Text.trimEnd before, some (text.drop before.length))
  | none => (text, none)

def splitParentheses (text : List Char) : List Char × Option (List Char) :=
  match splitParameters text with
  | (name, some params) => if params.head? = some '(' then (name, some params) else (text, none)
  | _ => (text, none)

end SourceDocs.Symbol

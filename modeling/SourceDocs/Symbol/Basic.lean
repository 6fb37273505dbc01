import SourceDocs.Symbol.Parameters

namespace SourceDocs

-- A hierarchical name such as `A.B.Method`. It is kept as its segments, so that it does not matter
-- how the source separates them.
structure Symbol where
  segments : List String
deriving DecidableEq, Repr

namespace Symbol

-- Letters and digits of ASCII, and everything beyond it.
def isTextChar (c : Char) : Bool :=
  c.isAlphanum || 0x7f < c.toNat

def isGap (c : Char) : Bool :=
  c = ' ' || c = '\t' || c = '\r' || c = '\n'

def afterSeparator? : List Char → Option (List Char)
  | '.' :: rest => some rest
  | ':' :: ':' :: rest => some rest
  | '-' :: '>' :: rest => some rest
  | _ => none

theorem length_afterSeparator? {cs rest : List Char} (h : afterSeparator? cs = some rest) :
    rest.length < cs.length := by
  unfold afterSeparator? at h
  split at h
  case h_4 => cases h
  all_goals
    cases h
    simp only [List.length_cons]
    omega

def segment (current : List Char) : List (List Char) :=
  match Text.trim current with
  | [] => []
  | cs => [cs]

-- The segments of a text, where `current` has been read of the first one and `before` is the
-- character before the text. White space survives only as one space between two text characters.
def readSegments (current : List Char) (before : Option Char) (cs : List Char) :
    List (List Char) :=
  match cs with
  | [] => segment current
  | c :: rest =>
    match _h : afterSeparator? (c :: rest) with
    | some rest => segment current ++ readSegments [] none rest
    | none =>
      if isGap c then
        let next := rest.dropWhile Unicode.isWhiteSpace
        let keep := before.any isTextChar && next.head?.any isTextChar && current ≠ []
        readSegments (if keep then current ++ [' '] else current) none next
      else
        readSegments (current ++ [c]) (some c) rest
termination_by cs.length
decreasing_by
  case _ => exact length_afterSeparator? _h
  case _ =>
    have := (List.dropWhile_sublist Unicode.isWhiteSpace (l := rest)).length_le
    simp only [List.length_cons]
    exact Nat.lt_succ_of_le this
  case _ => simp

def normalize? (text : List Char) : Option Symbol :=
  match readSegments [] none (Text.trim text) with
  | [] => none
  | segments => some ⟨segments.map String.ofList⟩

-- The symbol of a plain text such as `A::B->C ()`. Parentheses at the end are dropped, unless
-- nothing is left without them.
def ofText? (text : List Char) : Option Symbol :=
  let (name, parentheses) := splitParentheses text
  (normalize? name).or (if parentheses.isSome then normalize? text else none)

def last (s : Symbol) : String :=
  s.segments.getLast?.getD ""

def join (s child : Symbol) : Symbol :=
  ⟨s.segments ++ child.segments⟩

def under : (scope : Option Symbol) → Symbol → Symbol
  | some scope, child => scope.join child
  | none, child => child

def startsWith (s other : Symbol) : Bool :=
  other.segments.isPrefixOf s.segments

def format (s : Symbol) (separator : String) : String :=
  separator.intercalate s.segments

instance : ToString Symbol where
  toString s := s.format "."

end Symbol
end SourceDocs

import SourceDocs.Config.Scalar
import SourceDocs.Config.Value

namespace SourceDocs.Config.Toml

-- How deep lists and tables may lie within each other in a value, and how many parts a key may
-- have.
def nestingLimit : Nat :=
  79

def isSpace (c : Char) : Bool :=
  c = ' ' || c = '\t'

def isPlain (c : Char) : Bool :=
  c = '\t' || (0x20 ≤ c.toNat && c.toNat ≠ 0x7f)

def isBareKeyChar (c : Char) : Bool :=
  c.isAlphanum || c = '_' || c = '-'

def skipSpaces (cs : List Char) : List Char :=
  cs.dropWhile isSpace

def afterNewline? : List Char → Option (List Char)
  | '\n' :: rest => some rest
  | '\r' :: '\n' :: rest => some rest
  | _ => none

def afterLine? (cs : List Char) : Option (List Char) :=
  match skipSpaces cs with
  | [] => some []
  | '#' :: rest =>
    match rest.dropWhile isPlain with
    | [] => some []
    | rest => afterNewline? rest
  | rest => afterNewline? rest

def skipGaps (fuel : Nat) (cs : List Char) : List Char :=
  match fuel with
  | 0 => cs
  | fuel + 1 =>
    match skipSpaces cs with
    | '#' :: rest => skipGaps fuel (rest.dropWhile isPlain)
    | rest =>
      match afterNewline? rest with
      | some rest => skipGaps fuel rest
      | none => rest

def codePoint? (digits : List Char) : Option Char :=
  let n := Scalar.ofDigits 16 digits
  if digits.all Scalar.isHexDigit && n.isValidChar then some (Char.ofNat n) else none

def escape? : List Char → Option (Char × List Char)
  | 'b' :: rest => some ('\x08', rest)
  | 't' :: rest => some ('\t', rest)
  | 'n' :: rest => some ('\n', rest)
  | 'f' :: rest => some ('\x0c', rest)
  | 'r' :: rest => some ('\r', rest)
  | '"' :: rest => some ('"', rest)
  | '\\' :: rest => some ('\\', rest)
  | 'u' :: rest =>
    if 4 ≤ rest.length then (codePoint? (rest.take 4)).map (·, rest.drop 4) else none
  | 'U' :: rest =>
    if 8 ≤ rest.length then (codePoint? (rest.take 8)).map (·, rest.drop 8) else none
  | _ => none

theorem length_escape? {cs rest : List Char} {c : Char} (h : escape? cs = some (c, rest)) :
    rest.length < cs.length := by
  unfold escape? at h
  split at h <;> grind [Option.map_eq_some_iff]

def basic? (cs : List Char) : Option (List Char × List Char) :=
  match cs with
  | [] => none
  | '"' :: rest => some ([], rest)
  | '\\' :: rest =>
    match _h : escape? rest with
    | some (c, rest) => (basic? rest).map fun r => (c :: r.1, r.2)
    | none => none
  | c :: rest => if isPlain c then (basic? rest).map fun r => (c :: r.1, r.2) else none
termination_by cs.length
decreasing_by
  case _ =>
    have := length_escape? _h
    simp only [List.length_cons] at *
    omega
  case _ => simp

def literal? : List Char → Option (List Char × List Char)
  | [] => none
  | '\x27' :: rest => some ([], rest)
  | c :: rest => if isPlain c then (literal? rest).map fun r => (c :: r.1, r.2) else none

def skipBlanks : List Char → List Char
  | [] => []
  | '\r' :: '\n' :: rest => skipBlanks rest
  | c :: rest => if isSpace c || c = '\n' then skipBlanks rest else c :: rest

theorem length_skipBlanks (cs : List Char) : (skipBlanks cs).length ≤ cs.length := by
  fun_induction skipBlanks cs <;> grind

-- A string over several lines, after the three quotes that open it. Up to two quotes may stand
-- before the three that close it; `quote` closes it, and escapes count only if `escapes` is set. A
-- backslash at the end of a line takes away all blanks up to the next character.
def multiline? (quote : Char) (escapes : Bool) (cs : List Char) :
    Option (List Char × List Char) :=
  match cs with
  | [] => none
  | c :: rest =>
    if [c, c, c].isPrefixOf (c :: rest) ∧ c = quote then
      let extra := ((rest.drop 2).take 2).takeWhile (· = quote)
      some (extra, (rest.drop 2).drop extra.length)
    else if c = '\\' ∧ escapes then
      if (afterNewline? (skipSpaces rest)).isSome then
        multiline? quote escapes (skipBlanks rest)
      else
        match _h : escape? rest with
        | some (c, rest) => (multiline? quote escapes rest).map fun r => (c :: r.1, r.2)
        | none => none
    else if c = '\r' then
      match rest with
      | '\n' :: rest => (multiline? quote escapes rest).map fun r => ('\n' :: r.1, r.2)
      | _ => none
    else if isPlain c ∨ c = '\n' then
      (multiline? quote escapes rest).map fun r => (c :: r.1, r.2)
    else
      none
termination_by cs.length
decreasing_by
  case _ =>
    have := length_skipBlanks rest
    simp only [List.length_cons]
    omega
  case _ =>
    have := length_escape? _h
    simp only [List.length_cons] at *
    omega
  case _ =>
    simp only [List.length_cons]
    omega
  case _ => simp

-- A line break right after the opening quotes is not part of the string.
def afterOpening (cs : List Char) : List Char :=
  (afterNewline? cs).getD cs

def string? : List Char → Option (List Char × List Char)
  | '"' :: '"' :: '"' :: rest => multiline? '"' true (afterOpening rest)
  | '"' :: rest => basic? rest
  | '\x27' :: '\x27' :: '\x27' :: rest => multiline? '\x27' false (afterOpening rest)
  | '\x27' :: rest => literal? rest
  | _ => none

def simpleKey? (cs : List Char) : Option (String × List Char) :=
  match cs with
  | '"' :: rest => (basic? rest).map fun r => (String.ofList r.1, r.2)
  | '\x27' :: rest => (literal? rest).map fun r => (String.ofList r.1, r.2)
  | _ =>
    let word := cs.takeWhile isBareKeyChar
    if word.isEmpty then none else some (String.ofList word, cs.drop word.length)

def keyWithin? (limit : Nat) (cs : List Char) : Option (List String × List Char) :=
  match limit with
  | 0 => none
  | limit + 1 => do
    let (part, rest) ← simpleKey? (skipSpaces cs)
    match skipSpaces rest with
    | '.' :: rest =>
      let (parts, rest) ← keyWithin? limit rest
      return (part :: parts, rest)
    | rest => return ([part], rest)

def key? (cs : List Char) : Option (List String × List Char) :=
  keyWithin? nestingLimit cs

inductive Status
  -- By a header of its own, or as the whole text.
  | defined
  -- By the header of a table within it.
  | implied
  -- By a key with several parts.
  | dotted
deriving DecidableEq, Repr

inductive Node
  | value (v : Value)
  | table (status : Status) (entries : List (String × Node))
  | tables (elements : List (List (String × Node)))

abbrev Entries := List (String × Node)

def replace (key : String) (node : Node) : Entries → Entries
  | [] => [(key, node)]
  | (k, n) :: rest => if k = key then (key, node) :: rest else (k, n) :: replace key node rest

-- Changes the table at a path. Tables on the way that do not exist are made, by a key with several
-- parts if `byKey` is set. Such a key does not reach into a table that a header defines.
def change? (byKey : Bool) (f : Status → Entries → Option Entries) :
    (path : List String) → Status → Entries → Option Entries
  | [], status, entries => f status entries
  | key :: path, _, entries =>
    match entries.lookup key with
    | none =>
      let status := if byKey then Status.dotted else Status.implied
      (change? byKey f path status []).map fun sub => replace key (.table status sub) entries
    | some (.value _) => none
    | some (.tables elements) =>
      -- A path through repeated tables leads into the last one.
      (change? byKey f path .defined (elements.getLast?.getD [])).map fun sub =>
        replace key (.tables (elements.dropLast ++ [sub])) entries
    | some (.table status sub) =>
      if byKey ∧ status = .defined then none
      else (change? byKey f path status sub).map fun sub =>
        replace key (.table status sub) entries

def addEntry? (parts : List String) (v : Value) (entries : Entries) : Option Entries := do
  let path := parts.dropLast
  let key ← parts.getLast?
  let add (status : Status) (entries : Entries) : Option Entries :=
    -- A table that keys with several parts have made takes further entries only from such keys.
    if (status = .dotted) = path.isEmpty then none
    else if (entries.lookup key).isSome then none
    else some (entries ++ [(key, .value v)])
  change? true add path .defined entries

def openTable? (parts : List String) (entries : Entries) : Option Entries := do
  let key ← parts.getLast?
  let add (_ : Status) (entries : Entries) : Option Entries :=
    match entries.lookup key with
    | none => some (entries ++ [(key, .table .defined [])])
    | some (.table .implied sub) => some (replace key (.table .defined sub) entries)
    | some _ => none
  change? false add parts.dropLast .defined entries

def openElement? (parts : List String) (entries : Entries) : Option Entries := do
  let key ← parts.getLast?
  let add (_ : Status) (entries : Entries) : Option Entries :=
    match entries.lookup key with
    | none => some (entries ++ [(key, .tables [[]])])
    | some (.tables elements) => some (replace key (.tables (elements ++ [[]])) entries)
    | some _ => none
  change? false add parts.dropLast .defined entries

mutual

def Node.toValue : Node → Value
  | .value v => v
  | .table _ entries => .table (toValues entries)
  | .tables elements => .list (toTables elements)

def toValues : Entries → List (String × Value)
  | [] => []
  | (key, node) :: rest => (key, node.toValue) :: toValues rest

def toTables : List Entries → List Value
  | [] => []
  | entries :: rest => .table (toValues entries) :: toTables rest

end

mutual

-- A value at the beginning of a text, and the rest. It may have up to `levels` lists and tables
-- within each other.
def value? (fuel levels : Nat) (cs : List Char) : Option (Value × List Char) :=
  match fuel with
  | 0 => none
  | fuel + 1 =>
    match cs with
    | '[' :: rest =>
      if levels = 0 then none
      else
        (items? fuel (levels - 1) (skipGaps rest.length rest)).map fun r => (.list r.1, r.2)
    | '\x7b' :: rest =>
      if levels = 0 then none
      else
        match skipSpaces rest with
        | '\x7d' :: rest => some (.table [], rest)
        | rest => (fields? fuel (levels - 1) [] rest).map fun r => (.table (toValues r.1), r.2)
    | '"' :: _ => (string? cs).map fun r => (.text (String.ofList r.1), r.2)
    | '\x27' :: _ => (string? cs).map fun r => (.text (String.ofList r.1), r.2)
    | _ =>
      let (word, rest) := Scalar.split cs
      if word = "true".toList then some (.bool true, rest)
      else if word = "false".toList then some (.bool false, rest)
      else if Scalar.isValid word then some (.scalar, rest)
      else none

def items? (fuel levels : Nat) (cs : List Char) : Option (List Value × List Char) :=
  match fuel with
  | 0 => none
  | fuel + 1 =>
    match cs with
    | ']' :: rest => some ([], rest)
    | _ => do
      let (v, rest) ← value? fuel levels cs
      match skipGaps rest.length rest with
      | ',' :: rest =>
        let (items, rest) ← items? fuel levels (skipGaps rest.length rest)
        return (v :: items, rest)
      | ']' :: rest => return ([v], rest)
      | _ => none

def fields? (fuel levels : Nat) (entries : Entries) (cs : List Char) :
    Option (Entries × List Char) :=
  match fuel with
  | 0 => none
  | fuel + 1 => do
    let (parts, v, rest) ← entry? fuel levels cs
    let entries ← addEntry? parts v entries
    match skipSpaces rest with
    | ',' :: rest => fields? fuel levels entries rest
    | '\x7d' :: rest => return (entries, rest)
    | _ => none

def entry? (fuel levels : Nat) (cs : List Char) : Option (List String × Value × List Char) :=
  match fuel with
  | 0 => none
  | fuel + 1 => do
    let (parts, rest) ← key? cs
    match rest with
    | '=' :: rest =>
      let (v, rest) ← value? fuel levels (skipSpaces rest)
      return (parts, v, rest)
    | _ => none

end

def header? (closing : List Char) (cs : List Char) : Option (List String × List Char) := do
  let (parts, rest) ← key? cs
  guard (closing.isPrefixOf rest)
  return (parts, ← afterLine? (rest.drop closing.length))

-- Reads the statements of a text into a table. `header` is the path of the table that entries
-- belong to.
def statements? (fuel : Nat) (header : List String) (entries : Entries) (cs : List Char) :
    Option Entries :=
  match fuel with
  | 0 => none
  | fuel + 1 =>
    match skipSpaces cs with
    | [] => some entries
    | '[' :: '[' :: rest => do
      let (parts, rest) ← header? [']', ']'] rest
      statements? fuel parts (← openElement? parts entries) rest
    | '[' :: rest => do
      let (parts, rest) ← header? [']'] rest
      statements? fuel parts (← openTable? parts entries) rest
    | rest =>
      match afterLine? rest with
      | some rest => statements? fuel header entries rest
      | none => do
        -- Every level of a value takes at least one character and at most two steps.
        let (parts, v, rest) ← entry? (2 * rest.length) nestingLimit rest
        let rest ← afterLine? rest
        let add (_ : Status) (sub : Entries) : Option Entries := addEntry? parts v sub
        statements? fuel header (← change? false add header .defined entries) rest

-- A byte order mark at the beginning is not part of the text.
def parse? (text : String) : Option Value :=
  let cs := text.toList
  let cs := if cs.head? = some '\ufeff' then cs.tail else cs
  (statements? (cs.length + 1) [] [] cs).map fun entries => .table (toValues entries)

end SourceDocs.Config.Toml

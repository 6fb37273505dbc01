namespace SourceDocs.CommandLine

structure Arguments where
  inputs : List String
  output : Option String
  language : Option String
  config : Option String
  format : Option String
  timeout : Option Nat
  verbose : Bool
deriving DecidableEq, Repr

inductive Setting
  | output
  | language
  | config
  | format
  | timeout
deriving DecidableEq, Repr

inductive Refusal
  | invalid
  | help
deriving DecidableEq, Repr

namespace Setting

def ofName? : List Char → Option Setting := fun name =>
  match String.ofList name with
  | "output" => some output
  | "language" => some language
  | "config" => some config
  | "format" => some format
  | "timeout-ms" => some timeout
  | _ => none

def ofLetter? : Char → Option Setting
  | 'o' => some output
  | 'l' => some language
  | 'c' => some config
  | 'f' => some format
  | _ => none

end Setting

namespace Arguments

def initial : Arguments :=
  ⟨[], none, none, none, none, none, false⟩

-- A number of 64 bits in decimal digits, with or without a plus sign.
def number? (cs : List Char) : Option Nat :=
  let digits := if cs.head? = some '+' then cs.tail else cs
  let n := digits.foldl (fun n c => n * 10 + (c.toNat - '0'.toNat)) 0
  if !digits.isEmpty && digits.all Char.isDigit && n < UInt64.size then some n else none

def once {α : Type} (old : Option α) (value : α) : Except Refusal (Option α) :=
  if old.isSome then .error .invalid else .ok (some value)

def path (value : String) : Except Refusal String :=
  if value = "" then .error .invalid else .ok value

def set (a : Arguments) (setting : Setting) (value : List Char) : Except Refusal Arguments := do
  let text := String.ofList value
  match setting with
  | .output => return { a with output := ← once a.output (← path text) }
  | .language => return { a with language := ← once a.language text }
  | .config => return { a with config := ← once a.config (← path text) }
  | .format => return { a with format := ← once a.format text }
  | .timeout =>
    match number? value with
    | some n => return { a with timeout := ← once a.timeout n }
    | none => .error .invalid

def setVerbose (a : Arguments) : Except Refusal Arguments :=
  if a.verbose then .error .invalid else .ok { a with verbose := true }

-- The first option with a value takes the rest of the letters, or else waits for the next argument.
def letters (a : Arguments) : List Char → Except Refusal (Arguments × Option Setting)
  | [] => .ok (a, none)
  | c :: rest =>
    if c = 'h' then .error .help
    else if c = 'v' then do (← a.setVerbose).letters rest
    else
      match Setting.ofLetter? c with
      | none => .error .invalid
      | some s =>
        if rest.isEmpty then .ok (a, some s)
        else do return (← a.set s (if rest.head? = some '=' then rest.tail else rest), none)

def name (a : Arguments) (cs : List Char) : Except Refusal (Arguments × Option Setting) :=
  let name := cs.takeWhile (· ≠ '=')
  match cs.drop name.length, Setting.ofName? name with
  | _ :: value, some s => do return (← a.set s value, none)
  | [], some s => .ok (a, some s)
  | [], none =>
    if name = "verbose".toList then do return (← a.setVerbose, none)
    else if name = "help".toList then .error .help
    else .error .invalid
  | _ :: _, none => .error .invalid

def isValue (cs : List Char) : Bool :=
  cs.head? ≠ some '-' || cs = ['-']

-- Reads the arguments one after the other. A `waiting` option takes the next one.
def parse (a : Arguments) (waiting : Option Setting) : List String → Except Refusal Arguments
  | [] => if waiting.isSome then .error .invalid else .ok a
  | arg :: rest =>
    match waiting with
    | some s => if isValue arg.toList then do (← a.set s arg.toList).parse none rest
      else .error .invalid
    | none =>
      match arg.toList with
      | ['-', '-'] => .ok { a with inputs := a.inputs ++ rest }
      | '-' :: '-' :: cs => do
        let (a, waiting) ← a.name cs
        a.parse waiting rest
      | '-' :: c :: cs => do
        let (a, waiting) ← a.letters (c :: cs)
        a.parse waiting rest
      | _ => parse { a with inputs := a.inputs ++ [arg] } none rest

end Arguments
end SourceDocs.CommandLine

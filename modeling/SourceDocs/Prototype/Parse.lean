import SourceDocs.Prototype.Basic

namespace SourceDocs.Prototype

variable (profile : Profile) (buf : Buffer)

-- Square brackets open a parameter list only after the word `this`.
def listOpening? (i : Nat) : Option (Nat × Char) :=
  if i < buf.size then
    match _h : Skip.quoted? profile buf i with
    | some j => listOpening? j
    | none =>
      if buf.isChar i '(' then some (i, ')')
      else if buf.isChar i '[' && buf.isToken (buf.lastNonBlank (i - 1)) "this" then some (i, ']')
      else if buf.isChar i '\x7b' then some (i, '\x7d')
      else listOpening? (i + 1)
  else
    none
termination_by buf.size - i
decreasing_by
  case _ =>
    have := Skip.lt_quoted? profile buf _h
    omega
  case _ => omega

def listSeparators (closer : Char) (i : Nat) : List Nat × Option Nat :=
  if i < buf.size then
    if isListSeparator buf i then
      let rest := listSeparators closer (i + 1)
      (i :: rest.1, rest.2)
    else if buf.isChar i closer then ([], some i)
    else
      match _h : Skip.enclosed? profile buf true i with
      | some j => listSeparators closer j
      | none => listSeparators closer (i + 1)
  else
    ([], none)
termination_by buf.size - i
decreasing_by
  case _ => omega
  case _ =>
    have := Skip.lt_enclosed? profile buf _h
    omega
  case _ => omega

structure Delimited where
  opener : Nat
  separators : List Nat
  closer : Option Nat

def delimit? : Option Delimited := do
  let (opener, closer) ← listOpening? profile buf 0
  let rest := listSeparators profile buf closer (opener + 1)
  return ⟨opener, rest.1, rest.2⟩

namespace Delimited

variable (d : Delimited)

-- The closing bracket, or the end of the text.
def stop : Nat :=
  d.closer.getD buf.size

def mark : Roles :=
  let roles := (Roles.empty buf).set d.opener (some .startOfParameters)
  let roles := d.separators.foldl (fun r i => r.set i (some .parameterSeparator)) roles
  match d.closer with
  | some i => roles.set i (some .endOfParameters)
  | none => roles

def trimmed (start stop : Nat) : Nat × Nat :=
  let first := buf.afterBlanks start stop
  (first, buf.beforeBlanks first stop)

def ranges (start stop : Nat) : List Nat → List (Nat × Nat)
  | [] => [trimmed buf start stop]
  | i :: separators => trimmed buf start i :: ranges (i + 1) stop separators

-- The parameters. An empty list has none, and not an empty one.
def parameters : List (Nat × Nat) :=
  match ranges buf (d.opener + 1) (d.stop buf) d.separators with
  | [(start, stop)] => if start = stop then [] else [(start, stop)]
  | rs => rs

end Delimited

def listStyle? (parameters : List (Nat × Nat)) : Option Style :=
  if parameters.isEmpty then none
  else if parameters.any fun r => styleOf profile buf r.1 r.2 = .pascal then some .pascal
  else some .c

def markAround (d : Delimited) (roles : Roles) : Roles :=
  let after := buf.afterBlanks (d.stop buf + 1) buf.size
  let before := buf.beforeBlanks 0 d.opener
  if after < buf.size ∧ buf.isChar after ':' then
    let typeStart := buf.afterBlanks (after + 1) buf.size
    let roles :=
      if typeStart < buf.size then markModifiersAndType profile buf roles typeStart buf.size
      else roles
    if 0 < before then markModifiersAndName profile buf roles 0 before else roles
  else
    if 0 < before then markC profile buf roles 0 before else roles

-- The parameters share one style, since `const a, b: string` shows only in its second part which
-- one it is. What stands before the list is read like one more declaration, in Pascal style if a
-- colon and a type follow the list.
def ofDelimited (d : Delimited) : Prototype :=
  let parameters := d.parameters buf
  let style := listStyle? profile buf parameters
  let roles := parameters.foldl
    (fun roles r => mark profile buf (style.getD .c) roles r.1 r.2) (d.mark buf)
  ⟨buf, markAround profile buf d roles, style, parameters, some (d.opener, d.stop buf)⟩

def ofText (profile : Profile) (text : List Char) : Prototype :=
  let buf := Buffer.ofChars text
  match delimit? profile buf with
  | some d => ofDelimited profile buf d
  | none =>
    let style := styleOf profile buf 0 buf.size
    ⟨buf, mark profile buf style (.empty buf) 0 buf.size, some style, [], none⟩

def ofDeclaration (profile : Profile) (text : List Char) : Prototype :=
  let buf := Buffer.ofChars text
  let range := Delimited.trimmed buf 0 buf.size
  let style := styleOf profile buf range.1 range.2
  ⟨buf, mark profile buf style (.empty buf) range.1 range.2, some style, [range], none⟩

end SourceDocs.Prototype

import SourceDocs.Prototype.Role
import SourceDocs.Prototype.Word

namespace SourceDocs.Prototype

-- A declaration is read from the right. In C style it is `[modifier]* [type] name`, and in Pascal
-- style `[modifier]* name : [modifier]* type`. A default value may follow either.
inductive Style
  | c
  | pascal
deriving DecidableEq, Repr

variable (profile : Profile) (buf : Buffer)

def isIdentifier (i : Nat) : Bool :=
  buf.isText i || buf.isChar i '_'

def isDefault (i : Nat) : Bool :=
  buf.isChar i '=' || buf.matchesAt i ":="

-- Is there a colon between the words from `i` to `stop`, before any default value?
def hasColon (stop i : Nat) : Bool :=
  if i < stop then
    if isDefault buf i then false
    else if buf.matchesAt i "::" then hasColon stop (i + 2)
    else if buf.isChar i ':' then true
    else
      match _h : Word.at? profile buf stop i with
      | some w => hasColon stop w.stop
      | none => hasColon stop (i + 1)
  else
    false
termination_by stop - i
decreasing_by
  case _ => omega
  case _ =>
    have := Word.lt_stop_of_at? profile buf ‹_› _h
    omega
  case _ => omega

def styleOf (start stop : Nat) : Style :=
  if hasColon profile buf stop start then .pascal else .c

def markDefault (roles : Roles) (i stop : Nat) : Roles :=
  let afterSign := if buf.isChar i '=' then i + 1 else i + 2
  let start := buf.afterBlanks afterSign stop
  let valueStop := buf.beforeBlanks start stop
  let roles := roles.setRange i afterSign (some .defaultSeparator)
  if start < valueStop then roles.setRange start valueStop (some .defaultValue) else roles

-- A block is marked at its ends, any other word as a whole.
def markModifier (roles : Roles) (w : Word) : Roles :=
  if w.isBlock ∧ w.start + 2 ≤ w.stop then
    (roles.set w.start (some .openingModifier)).set (w.stop - 1) (some .closingModifier)
  else
    roles.setRange w.start w.stop (some .modifier)

def qualifiedEnd (stop i : Nat) : Nat :=
  if i < stop then
    if isIdentifier buf i || buf.isChar i '.' then qualifiedEnd stop (i + 1)
    else if buf.matchesAt i "::" then qualifiedEnd stop (i + 2)
    else i
  else
    i
termination_by stop - i

def markNameSuffix (roles : Roles) (stop i : Nat) : Roles :=
  if i < stop then
    match _h : (Skip.block? profile buf true i).filter (· ≤ stop) with
    | some j =>
      let roles := roles.set i (some .openingNameSuffix)
      markNameSuffix (roles.set (j - 1) (some .closingNameSuffix)) stop j
    | none =>
      let roles := if buf.isBlank i then roles else roles.set i (some .nameSuffix)
      markNameSuffix roles stop (i + 1)
  else
    roles
termination_by stop - i
decreasing_by
  case _ =>
    have := Skip.lt_block? profile buf (Option.filter_eq_some_iff.1 _h).1
    omega
  case _ => omega

def markName (roles : Roles) (w : Word) : Roles :=
  let start := Buffer.seek (isIdentifier buf) w.start w.stop
  let stop := qualifiedEnd buf w.stop start
  let roles := roles.setRange w.start start (some .namePrefix)
  let roles := roles.setRange start stop (some .name)
  markNameSuffix profile buf roles w.stop stop

-- The end of the qualifiers and the end of the type from `i` on, when the qualifiers end at
-- `qualifierStop` so far.
def typeEnds (stop qualifierStop i : Nat) : Nat × Nat :=
  if i < stop then
    if buf.isChar i '.' then typeEnds stop (i + 1) (i + 1)
    else if buf.matchesAt i "::" then typeEnds stop (i + 2) (i + 2)
    else if isIdentifier buf i then typeEnds stop qualifierStop (i + 1)
    else (qualifierStop, i)
  else
    (qualifierStop, i)
termination_by stop - i

theorem le_typeEnds (stop qualifierStop i : Nat) :
    i ≤ (typeEnds buf stop qualifierStop i).2 := by
  fun_induction typeEnds buf stop qualifierStop i <;> omega

def isSeparator (roles : Roles) (i : Nat) : Bool :=
  roles.get i = some .defaultSeparator || roles.get i = some .nameTypeSeparator

-- The modifiers from `start` to `stop` and the word after them, which is the last one unless a
-- separator stands before it.
def modifiersAndLast (roles : Roles) (start stop : Nat) : List Word × Option Word :=
  -- All words are counted first, also those behind a separator.
  let all := (Word.read profile buf (fun _ => false) stop start).1
  let words := (Word.read profile buf (isSeparator roles) stop start).1
  if words.length = all.length then (words.dropLast, words.getLast?) else (words, none)

theorem bounds_of_modifiersAndLast {roles : Roles} {start stop : Nat} {w : Word}
    (h : (modifiersAndLast profile buf roles start stop).2 = some w) :
    start ≤ w.start ∧ w.stop ≤ stop := by
  unfold modifiersAndLast at h
  dsimp only at h
  split at h
  case isTrue => exact Word.bounds_of_mem_read profile buf (List.mem_of_getLast? h)
  case isFalse => simp at h

def isListSeparator (i : Nat) : Bool :=
  buf.isChar i ',' || buf.isChar i ';'

mutual

def markType (roles : Roles) (start stop : Nat) : Roles :=
  let first := Buffer.seek (isIdentifier buf) start stop
  let ends := typeEnds buf stop first first
  let roles := roles.setRange start first (some .modifier)
  let roles := roles.setRange first ends.1 (some .typeQualifier)
  let roles := roles.setRange ends.1 ends.2 (some .type)
  markTypeSuffix roles stop ends.2
termination_by (stop - start, 1)
decreasing_by
  have h₁ := Buffer.le_seek (isIdentifier buf) start stop
  have h₂ := le_typeEnds buf stop first first
  simp only [Prod.lex_def]
  simp only [first] at *
  omega

def markTypeSuffix (roles : Roles) (stop i : Nat) : Roles :=
  if _hi : i < stop then
    match _h : (Skip.block? profile buf true i).filter (· ≤ stop) with
    | some j =>
      let roles := roles.set i (some .openingTypeSuffix)
      let roles :=
        if i + 1 < j then
          markTypeList (roles.set (j - 1) (some .closingTypeSuffix)) (j - 1) (i + 1)
        else
          roles
      markTypeSuffix roles stop j
    | none => markTypeSuffix (roles.set i (some .typeSuffix)) stop (i + 1)
  else
    roles
termination_by (stop - i, 0)
decreasing_by
  case _ =>
    have := (Option.filter_eq_some_iff.1 _h).2
    simp only [Prod.lex_def, decide_eq_true_eq] at *
    omega
  case _ =>
    have := Skip.lt_block? profile buf (Option.filter_eq_some_iff.1 _h).1
    simp only [Prod.lex_def]
    omega
  case _ =>
    simp only [Prod.lex_def]
    omega

def markTypeList (roles : Roles) (stop i : Nat) : Roles :=
  if _hi : i < stop then
    let j := (Word.read profile buf (isListSeparator buf) stop i).2
    let pieceStop := buf.beforeBlanks i j
    let pieceStart := buf.afterBlanks i pieceStop
    let roles :=
      if pieceStart < pieceStop then markModifiersAndType roles pieceStart pieceStop else roles
    markTypeList roles stop (j + 1)
  else
    roles
termination_by (stop - i, 3)
decreasing_by
  case _ =>
    have h₁ := buf.le_afterBlanks i pieceStop
    have h₂ := buf.beforeBlanks_le i j
    have h₃ := Word.read_le profile buf (isListSeparator buf) (Nat.le_of_lt _hi)
    simp only [Prod.lex_def]
    simp only [pieceStart, pieceStop, j] at *
    omega
  case _ =>
    have := Word.le_read profile buf (isListSeparator buf) stop i
    simp only [Prod.lex_def]
    omega

def markModifiersAndType (roles : Roles) (start stop : Nat) : Roles :=
  let words := modifiersAndLast profile buf roles start stop
  let marked := words.1.foldl (fun r w => r.setRange w.start w.stop (some .modifier)) roles
  match _h : words.2 with
  | some w => markType marked w.start w.stop
  | none => marked
termination_by (stop - start, 2)
decreasing_by
  have := bounds_of_modifiersAndLast profile buf _h
  simp only [Prod.lex_def]
  omega

end

def markModifiersAndName (roles : Roles) (start stop : Nat) : Roles :=
  let words := modifiersAndLast profile buf roles start stop
  let marked := words.1.foldl (fun r w => r.setRange w.start w.stop (some .modifier)) roles
  match words.2 with
  | some w => markName profile buf marked w
  | none => marked

def pointerStart (start j : Nat) : Nat :=
  let k := Buffer.retreat buf.isBlank (start + 1) j
  if start < k ∧ Skip.isPointer buf (k - 1) then pointerStart start (k - 1) else k
termination_by j
decreasing_by
  have := Buffer.retreat_le buf.isBlank (start + 1) j
  omega

-- A type before a name. The pointer symbols at its end belong to the name, and the blanks among
-- them to neither.
def markDeclaredType (roles : Roles) (w : Word) : Roles :=
  let roles := markType profile buf roles w.start w.stop
  let pointers := List.range' (pointerStart buf w.start w.stop)
    (w.stop - pointerStart buf w.start w.stop)
  if pointers.any (Skip.isPointer buf) then
    pointers.foldl (fun r i =>
      if Skip.isPointer buf i then r.set i (some .namePrefix)
      else if buf.isBlank i then r.set i none
      else r) roles
  else
    roles

-- The last word is the name, the one before it the type, and all others are modifiers.
def markWords (roles : Roles) : List Word → Roles
  | [] => roles
  | [name] => markName profile buf roles name
  | [type, name] => markName profile buf (markDeclaredType profile buf roles type) name
  | modifier :: words => markWords (markModifier roles modifier) words

def markC (roles : Roles) (start stop : Nat) : Roles :=
  let words := Word.read profile buf (isDefault buf) stop start
  -- The words stop short of the end only at a default value.
  let roles := if words.2 < stop then markDefault buf roles words.2 stop else roles
  markWords profile buf roles words.1

-- The separators of a declaration in Pascal style, the number of its words, and how many of them
-- stand before the last colon.
structure Survey where
  roles : Roles
  words : Nat
  beforeColon : Nat

def survey (stop : Nat) (s : Survey) (i : Nat) : Survey :=
  if i < stop then
    if isDefault buf i then { s with roles := markDefault buf s.roles i stop }
    else if buf.matchesAt i "::" then survey stop s (i + 2)
    else if buf.isChar i ':' then
      survey stop ⟨s.roles.set i (some .nameTypeSeparator), s.words, s.words⟩ (i + 1)
    else
      match _h : Word.at? profile buf stop i with
      | some w => survey stop { s with words := s.words + 1 } w.stop
      | none => survey stop s (i + 1)
  else
    s
termination_by stop - i
decreasing_by
  case _ => omega
  case _ => omega
  case _ =>
    have := Word.lt_stop_of_at? profile buf ‹_› _h
    omega
  case _ => omega

def markPascalName (roles : Roles) : (n : Nat) → List Word → Roles
  | 0, _ => roles
  | _ + 1, [] => roles
  | 1, w :: _ => markName profile buf roles w
  | n + 2, w :: words => markPascalName (markModifier roles w) (n + 1) words

def markPascalType (roles : Roles) : (n : Nat) → List Word → Roles
  | 0, _ => roles
  | _ + 1, [] => roles
  | 1, w :: _ => markType profile buf roles w.start w.stop
  | n + 2, w :: words => markPascalType (markModifier roles w) (n + 1) words

-- A declaration in Pascal style. Without a colon all words stand before it, as in the first part of
-- `a, b: integer`.
def markPascal (roles : Roles) (start stop : Nat) : Roles :=
  let s := survey profile buf stop ⟨roles, 0, 0⟩ start
  -- A colon with no word before it does not divide the words.
  let before := if s.beforeColon = 0 then s.words else s.beforeColon
  let names := Word.read profile buf (isSeparator s.roles) stop start
  let roles := markPascalName profile buf s.roles before names.1
  -- The words before the first separator have been marked; types start behind the colons there.
  let typeStart := Buffer.seek (roles.get · ≠ some .nameTypeSeparator) names.2 stop
  let types := Word.read profile buf (roles.get · = some .defaultSeparator) stop typeStart
  markPascalType profile buf roles (s.words - before) types.1

def mark (style : Style) (roles : Roles) (start stop : Nat) : Roles :=
  match style with
  | .c => markC profile buf roles start stop
  | .pascal => markPascal profile buf roles start stop

end SourceDocs.Prototype

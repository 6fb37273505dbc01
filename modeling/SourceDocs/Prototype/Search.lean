import SourceDocs.Comment.Candidate
import SourceDocs.Entity
import SourceDocs.Poll
import SourceDocs.Prototype.Normalize
import SourceDocs.Prototype.Title

namespace SourceDocs.Prototype

variable (profile : Profile) (buf : Buffer)

def codeStart? (endLine line : Nat) : Option Nat :=
  if line < endLine ∧ line ≤ buf.lineCount then
    let first := buf.afterBlanks (buf.lineStart line) buf.size
    if first < buf.size ∧ !buf.isLineBreak first then some first else codeStart? endLine (line + 1)
  else
    none
termination_by buf.lineCount + 1 - line

def endsAt (enders : Enders) (i : Nat) : Bool :=
  enders.symbols.any fun s => (buf.matchLength? i s !profile.caseSensitive).isSome

-- Comments, strings and blocks are passed as a whole, so that an ender in them does not count. A
-- line break ends nothing if the line has been `extended`. Each line break is a reason to ask
-- whether to go on.
def findEnder (enders : Enders) (limit : Nat) (extended : Bool) (i : Nat) : Poll (Option Nat) :=
  if i < limit then
    if buf.isLineBreak i then
      Poll.check >>= fun _ =>
        if enders.lineBreaks && !extended then pure (some i)
        else findEnder enders limit false (i + 1)
    else
      -- An extender counts before an ender, and an ender before what encloses others.
      match _h : extender? profile buf i with
      | some s =>
        findEnder enders limit (extended || !isInIdentifier buf i s)
          (buf.afterChars i s.utf8ByteSize)
      | none =>
        if endsAt profile buf enders i then pure (some i)
        else
          match _h : Skip.enclosed? profile buf false i with
          | some j => findEnder enders limit extended j
          | none => findEnder enders limit extended (i + 1)
  else
    pure none
termination_by limit - i
decreasing_by
  case _ => omega
  case _ =>
    have := lt_afterChars_of_extender? profile buf _h
    omega
  case _ =>
    have := Skip.lt_enclosed? profile buf _h
    omega
  case _ => omega

-- Neither the ender nor the blanks before it are part of the prototype.
def span (enders : Enders) (startLine endLine : Nat) : Poll (Option (Nat × Nat)) :=
  match codeStart? buf endLine startLine with
  | none => pure none
  | some start =>
    -- The blanks before the next comment are still searched, its first symbol is not.
    let limit := buf.afterBlanks (buf.lineStart endLine) buf.size
    findEnder profile buf enders limit false start >>= fun ender =>
      pure <| ender.bind fun i =>
        let stop := buf.beforeBlanks start i
        if start < stop then some (start, stop) else none

def find (title : List Char) (enders : Enders) (startLine endLine : Nat) :
    Poll (Option (List Char)) :=
  span profile buf enders startLine endLine >>= fun found =>
    pure <| (found.filter fun s => titleMatches title (buf.slice s.1 s.2)).map fun s =>
      normalize profile buf s.1 s.2

-- The last entity from `k` on whose header, and those of all between, stand before `endLine`.
def lastBefore (entities : Array Entity) (endLine k : Nat) : Nat :=
  if entities[k + 1]?.any (·.line < endLine) then lastBefore entities endLine (k + 1) else k
termination_by entities.size - k
decreasing_by
  rename_i h
  rw [Option.any_eq_true] at h
  obtain ⟨e, he, _⟩ := h
  have := (Array.getElem?_eq_some_iff.1 he).1
  omega

-- From an embedded entity back to the one that it is embedded in, but not before `startLine`.
def backToOuter (entities : Array Entity) (startLine : Nat) : (k : Nat) → Nat
  | 0 => 0
  | k + 1 =>
    if entities[k + 1]?.any (·.isEmbedded) && entities[k]?.any (startLine ≤ ·.line) then
      backToOuter entities startLine k
    else
      k + 1

def wantedEnders? (comment : Comment.Candidate) (entity : Entity) : Option Enders :=
  if comment.containsLine entity.line ∧ entity.prototype.isNone then
    profile.endersFor? entity.kind
  else
    none

structure Assignment where
  outcome : Outcome Unit
  entities : Array Entity
  polls : Nat

-- `k` is the last entity of the comments before, and `n` polls have been made.
def assignFrom (signal : Signal) (n k : Nat) (entities : Array Entity) :
    List Comment.Candidate → Assignment
  | [] => ⟨.completed (), entities, n⟩
  | comment :: rest =>
    let k := lastBefore entities comment.endLine k
    let target := backToOuter entities comment.startLine k
    let wanted := entities[target]?.bind fun e =>
      (wantedEnders? profile comment e).map fun enders => (e.title, enders)
    match wanted with
    | none => assignFrom signal n k entities rest
    | some (title, enders) =>
      let endLine := (rest.head?.map (·.startLine)).getD (buf.lineCount + 1)
      match find profile buf title.toList enders comment.endLine endLine signal n with
      | (.cancelled, m) => ⟨.cancelled, entities, m⟩
      | (.completed none, m) => assignFrom signal m k entities rest
      | (.completed (some cs), m) =>
        let found (e : Entity) : Entity := { e with prototype := some (String.ofList cs) }
        assignFrom signal m k (entities.modify target found) rest

-- The entity of a comment is the last one in it that is not embedded. A prototype that it already
-- has stays.
def assign (comments : List Comment.Candidate) (entities : List Entity) (signal : Signal)
    (n : Nat) : Assignment :=
  assignFrom profile buf signal n 0 entities.toArray comments

def assigned (comments : List Comment.Candidate) (entities : List Entity) : Poll (List Entity) :=
  fun signal n =>
    let a := assign profile buf comments entities signal n
    (a.outcome.map fun _ => a.entities.toList, a.polls)

end SourceDocs.Prototype

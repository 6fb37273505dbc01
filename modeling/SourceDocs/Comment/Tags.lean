import SourceDocs.Cursor

namespace SourceDocs.Comment

inductive Tag
  | delimiter
  -- Part of a line that only decorates.
  | decoration
deriving DecidableEq, Repr

structure Tags where
  slots : Array (Option Tag)
deriving DecidableEq, Repr

namespace Tags

def empty (buf : Buffer) : Tags :=
  ⟨Array.replicate buf.size none⟩

def get (tags : Tags) (i : Nat) : Option Tag :=
  tags.slots[i]?.join

def isFree (tags : Tags) (i : Nat) : Bool :=
  tags.slots[i]? = some none

def set (tags : Tags) (i : Nat) (tag : Option Tag) : Tags :=
  if tags.isFree i then ⟨tags.slots.setIfInBounds i tag⟩ else tags

-- A later tag does not replace an earlier one.
def setRange (tags : Tags) (i j : Nat) (tag : Option Tag) : Tags :=
  if i < min j tags.slots.size then
    setRange (tags.set i tag) (i + 1) j tag
  else
    tags
termination_by min j tags.slots.size - i
decreasing_by
  have : (tags.set i tag).slots.size = tags.slots.size := by
    unfold set
    split <;> simp
  omega

def countFree (tags : Tags) (i j : Nat) : Nat :=
  (tags.slots.extract i j).toList.count none

def count (tags : Tags) (tag : Option Tag) : Nat :=
  tags.slots.toList.count tag

-- Nothing can be tagged before the first token.
def getAt (tags : Tags) : Cursor → Option Tag
  | .front => none
  | .position i => tags.get i

def setAt (tags : Tags) (tag : Option Tag) : Cursor → Tags × Bool
  | .front => (tags, false)
  | .position i => (tags.set i tag, tags.isFree i)

def setBetween (tags : Tags) (tag : Option Tag) : (start stop : Cursor) → Tags × Nat
  | .position i, .position j => (tags.setRange i j tag, tags.countFree i j)
  | _, _ => (tags, 0)

end Tags
end SourceDocs.Comment

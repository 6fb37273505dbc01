import SourceDocs.Cursor

namespace SourceDocs

inductive Role
  | typeQualifier
  | type
  | typeSuffix
  | openingTypeSuffix
  | closingTypeSuffix
  | name
  | namePrefix
  | nameSuffix
  | openingNameSuffix
  | closingNameSuffix
  | modifier
  | openingModifier
  | closingModifier
  | nameTypeSeparator
  | parameterSeparator
  | defaultSeparator
  | defaultValue
  | startOfParameters
  | endOfParameters
deriving DecidableEq, Repr

namespace Role

def isOfType : Role → Bool
  | modifier | openingModifier | closingModifier => true
  | typeQualifier | type | typeSuffix | openingTypeSuffix | closingTypeSuffix => true
  | namePrefix => true
  | _ => false

end Role

-- The role of each token, where there is one. A later role replaces an earlier one.
structure Roles where
  slots : Array (Option Role)
deriving DecidableEq, Repr

namespace Roles

def empty (buf : Buffer) : Roles :=
  ⟨Array.replicate buf.size none⟩

def get (roles : Roles) (i : Nat) : Option Role :=
  roles.slots[i]?.join

def set (roles : Roles) (i : Nat) (role : Option Role) : Roles :=
  ⟨roles.slots.setIfInBounds i role⟩

def setRange (roles : Roles) (i j : Nat) (role : Option Role) : Roles :=
  if i < min j roles.slots.size then
    setRange (roles.set i role) (i + 1) j role
  else
    roles
termination_by min j roles.slots.size - i
decreasing_by
  have : (roles.set i role).slots.size = roles.slots.size := by simp [set]
  omega

def isEmpty (roles : Roles) : Bool :=
  roles.slots.isEmpty

-- There are no roles before the first token.
def getAt (roles : Roles) : Cursor → Option Role
  | .front => none
  | .position i => roles.get i

def setAt (roles : Roles) (role : Option Role) : Cursor → Roles
  | .front => roles
  | .position i => roles.set i role

def setBetween (roles : Roles) (role : Option Role) : (start stop : Cursor) → Roles
  | .position i, .position j => roles.setRange i j role
  | _, _ => roles

end Roles
end SourceDocs

import SourceDocs.Symbol.Basic

namespace SourceDocs

inductive Using
  | within (scope : Symbol)
  -- At the beginning of a name, one symbol stands for another.
  | renamed (name target : Symbol)
deriving DecidableEq, Repr

namespace Using

def apply : Using → Symbol → Option Symbol
  | within scope, s => some (scope.join s)
  | renamed name target, s =>
    if s.startsWith name then some (target.join ⟨s.segments.drop name.segments.length⟩) else none

end Using

-- A scope, where none is the global one, and the statements in effect.
structure Context where
  scope : Option Symbol
  usings : List Using
deriving DecidableEq, Repr

namespace Context

def global (usings : List Using) : Context :=
  ⟨none, usings⟩

def isGlobal (c : Context) : Bool :=
  c.scope.isNone

def enclosing (s : Symbol) : List Symbol :=
  (List.range s.segments.length).reverse.map fun n => ⟨s.segments.take (n + 1)⟩

-- Every symbol that a name may mean here, innermost scope first.
def candidates (c : Context) (name : Symbol) : List Symbol :=
  (c.scope.toList.flatMap enclosing).map (·.join name) ++ name :: c.usings.filterMap (·.apply name)

end Context
end SourceDocs

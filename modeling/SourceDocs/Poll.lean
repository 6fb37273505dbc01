namespace SourceDocs

-- The answers to successive polls, counted from zero: `true` says stop.
abbrev Signal := Nat → Bool

namespace Signal

def never : Signal := fun _ => false

def always : Signal := fun _ => true

def after (n : Nat) : Signal := fun k => decide (n ≤ k)

end Signal

inductive Outcome (α : Type)
  | completed (value : α)
  | cancelled
deriving DecidableEq, Repr

namespace Outcome

def map {α β : Type} (f : α → β) : Outcome α → Outcome β
  | completed a => completed (f a)
  | cancelled => cancelled

def isCancelled {α : Type} : Outcome α → Bool
  | completed _ => false
  | cancelled => true

end Outcome

-- A computation that asks now and then whether to go on: from the number of polls made before it to
-- its outcome and the number of polls made after it.
def Poll (α : Type) : Type :=
  Signal → Nat → Outcome α × Nat

namespace Poll

instance : Monad Poll where
  pure a := fun _ n => (.completed a, n)
  bind x f := fun signal n =>
    match x signal n with
    | (.completed a, m) => f a signal m
    | (.cancelled, m) => (.cancelled, m)

def check : Poll Unit :=
  fun signal n => (if signal n then .cancelled else .completed (), n + 1)

def run {α : Type} (x : Poll α) (signal : Signal) : Outcome α × Nat :=
  x signal 0

end Poll
end SourceDocs

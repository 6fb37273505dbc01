namespace SourceDocs

-- What one round of a loop comes to.
inductive Round (State Result : Type)
  | again (s : State)
  | done (r : Result)

namespace Round

variable {State Result : Type}

def result (f : State → Result) : Round State Result → Result
  | again s => f s
  | done r => r

-- The rounds behind this one, which starts at `s`, have less before them.
inductive Nearer (left : State → Nat) (s : State) : Round State Result → Prop
  | again {s' : State} (h : left s' < left s) : Nearer left s (.again s')
  | done {r : Result} : Nearer left s (.done r)

end Round

namespace Loop

variable {State Result : Type} (round : State → Round State Result) (left : State → Nat)
  (f : State → Result)

def run : (n : Nat) → State → Option Result
  | 0, _ => none
  | n + 1, s =>
    match round s with
    | .again s => run n s
    | .done r => some r

-- From every state the loop comes to the result `f`, in at most one round more than are `left`.
def Ends : Prop :=
  ∀ s n, left s < n → run round n s = some (f s)

variable {round left f}

theorem ends (hf : ∀ s, f s = (round s).result f) (hleft : ∀ s, (round s).Nearer left s) :
    Ends round left f := by
  intro s n hn
  induction n generalizing s
  case zero => omega
  case succ n hi =>
    have hs := hleft s
    rw [run, hf s]
    cases hr : round s <;> rw [hr] at hs
    case again s' =>
      cases hs with
      | again h => exact hi s' (by omega)
    case done r => rfl

end Loop
end SourceDocs

import SourceDocs.Skip

namespace SourceDocs

structure Word where
  start : Nat
  stop : Nat
  -- A comment, a string or a block, not a name.
  isBlock : Bool
deriving DecidableEq, Repr

namespace Word

variable (profile : Profile) (buf : Buffer)

-- The word at `i`, cut off at `limit`. Blanks and stray symbols are no words.
def at? (limit i : Nat) : Option Word :=
  match Skip.name? profile buf limit i with
  | some j => some ⟨i, j, false⟩
  | none => (Skip.enclosed? profile buf true i).map fun j => ⟨i, min j limit, true⟩

theorem start_of_at? {limit i : Nat} {w : Word} (h : at? profile buf limit i = some w) :
    w.start = i := by
  unfold at? at h
  split at h
  case h_1 => cases h; rfl
  case h_2 =>
    simp only [Option.map_eq_some_iff] at h
    obtain ⟨_, _, rfl⟩ := h
    rfl

theorem lt_stop_of_at? {limit i : Nat} {w : Word} (hi : i < limit)
    (h : at? profile buf limit i = some w) : i < w.stop := by
  unfold at? at h
  split at h
  case h_1 hn =>
    cases h
    exact Skip.lt_name? profile buf hn
  case h_2 =>
    simp only [Option.map_eq_some_iff] at h
    obtain ⟨j, hj, rfl⟩ := h
    have := Skip.lt_enclosed? profile buf hj
    simp only
    omega

theorem stop_le_of_at? {limit i : Nat} {w : Word} (h : at? profile buf limit i = some w) :
    w.stop ≤ limit := by
  unfold at? at h
  split at h
  case h_1 hn =>
    cases h
    exact Skip.name?_le profile buf hn
  case h_2 =>
    simp only [Option.map_eq_some_iff] at h
    obtain ⟨j, hj, rfl⟩ := h
    simp only
    omega

-- The words from `i` on up to `limit`, or up to a position between words at which `halt` holds, and
-- the position reached.
def read (halt : Nat → Bool) (limit i : Nat) : List Word × Nat :=
  if i < limit then
    if halt i then ([], i)
    else
      match _h : at? profile buf limit i with
      | some w =>
        let rest := read halt limit w.stop
        (w :: rest.1, rest.2)
      | none => read halt limit (i + 1)
  else
    ([], i)
termination_by limit - i
decreasing_by
  case _ =>
    have := lt_stop_of_at? profile buf ‹_› _h
    omega
  case _ => omega

theorem le_read (halt : Nat → Bool) (limit i : Nat) : i ≤ (read profile buf halt limit i).2 := by
  fun_induction read profile buf halt limit i with
  | case2 i hi _ w h rest ih =>
    have := lt_stop_of_at? profile buf hi h
    simp only [rest] at *
    omega
  | case3 => omega
  | _ => simp

theorem read_le (halt : Nat → Bool) {limit i : Nat} (h : i ≤ limit) :
    (read profile buf halt limit i).2 ≤ limit := by
  fun_induction read profile buf halt limit i with
  | case2 i hi _ w hw rest ih => exact ih (stop_le_of_at? profile buf hw)
  | case3 i hi _ _ ih => exact ih hi
  | _ => exact h

theorem bounds_of_mem_read {halt : Nat → Bool} {limit i : Nat} {w : Word}
    (hw : w ∈ (read profile buf halt limit i).1) : i ≤ w.start ∧ w.stop ≤ limit := by
  fun_induction read profile buf halt limit i with
  | case2 i hi _ v h rest ih =>
    cases hw with
    | head =>
      exact ⟨Nat.le_of_eq (start_of_at? profile buf h).symm, stop_le_of_at? profile buf h⟩
    | tail _ hw =>
      have := ih hw
      have := lt_stop_of_at? profile buf hi h
      omega
  | case3 i _ _ _ ih =>
    have := ih hw
    omega
  | _ => simp at hw

end Word
end SourceDocs

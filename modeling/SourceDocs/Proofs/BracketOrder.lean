import SourceDocs.Profile.Builtin
import SourceDocs.Proofs.Nesting

namespace SourceDocs.Skip

variable {profile : Profile} {buf : Buffer} {angle : Bool} {i j k : Nat} {closer : Char}
  {closers outer stack : List Char}

-- The brackets that are left to close behind the token at `i`.
def afterBracket (buf : Buffer) (angle : Bool) (i : Nat) (closer : Char) (outer : List Char) :
    List Char :=
  match opens? buf angle i with
  | some c => c :: closer :: outer
  | none => if buf.isChar i closer then outer else closer :: outer

def stepInOrder (profile : Profile) (buf : Buffer) (angle : Bool) (i : Nat) (closer : Char)
    (outer : List Char) : Nat × List Char :=
  match comment? profile buf i with
  | some j => (j, closer :: outer)
  | none =>
    match string? buf i with
    | some j => (j, closer :: outer)
    | none => (i + 1, afterBracket buf angle i closer outer)

theorem lt_stepInOrder (profile : Profile) (buf : Buffer) (angle : Bool) (i : Nat) (closer : Char)
    (outer : List Char) : i < (stepInOrder profile buf angle i closer outer).1 := by
  unfold stepInOrder
  split
  case h_1 h => exact lt_comment? profile buf h
  case h_2 =>
    split
    case h_1 h => exact lt_string? buf h
    case h_2 => exact Nat.lt_add_one i

-- To the place where every bracket of `closers`, innermost first, is closed, with comments tried
-- before strings and strings before brackets.
def closeInOrder (profile : Profile) (buf : Buffer) (angle : Bool) (i : Nat)
    (closers : List Char) : Nat :=
  match closers with
  | [] => i
  | closer :: outer =>
    if i < buf.size then
      closeInOrder profile buf angle (stepInOrder profile buf angle i closer outer).1
        (stepInOrder profile buf angle i closer outer).2
    else
      i
termination_by buf.size - i
decreasing_by
  have := lt_stepInOrder profile buf angle i closer outer
  omega

def blockInOrder? (profile : Profile) (buf : Buffer) (angle : Bool) (i : Nat) : Option Nat :=
  (opens? buf angle i).map fun c => closeInOrder profile buf angle (i + 1) [c]

-- The search that starts at `i` with the brackets `closers` open comes to `k` with `stack` open.
inductive Reaches (profile : Profile) (buf : Buffer) (angle : Bool) :
    Nat → List Char → Nat → List Char → Prop
  | refl (i : Nat) (closers : List Char) : Reaches profile buf angle i closers i closers
  | step {i k : Nat} {closer : Char} {outer stack : List Char} (hi : i < buf.size)
    (h : Reaches profile buf angle (stepInOrder profile buf angle i closer outer).1
      (stepInOrder profile buf angle i closer outer).2 k stack) :
    Reaches profile buf angle i (closer :: outer) k stack

theorem closeInOrder_step (hi : i < buf.size) : closeInOrder profile buf angle i (closer :: outer) =
    closeInOrder profile buf angle (stepInOrder profile buf angle i closer outer).1
      (stepInOrder profile buf angle i closer outer).2 := by
  rw [closeInOrder, if_pos hi]

theorem closeInOrder_of_reaches (h : Reaches profile buf angle i closers k stack) :
    closeInOrder profile buf angle i closers = closeInOrder profile buf angle k stack := by
  induction h
  case refl => rfl
  case step hi _ ih => rw [closeInOrder_step hi, ih]

theorem Reaches.trans {l : Nat} {top : List Char} (h : Reaches profile buf angle i closers k stack)
    (h' : Reaches profile buf angle k stack l top) : Reaches profile buf angle i closers l top := by
  induction h
  case refl => exact h'
  case step hi _ ih => exact .step hi (ih h')

theorem AreClosers.stepInOrder (h : AreClosers (closer :: outer)) :
    AreClosers (stepInOrder profile buf angle i closer outer).2 := by
  unfold Skip.stepInOrder
  split
  case h_1 => exact h
  case h_2 =>
    split
    case h_1 => exact h
    case h_2 =>
      unfold afterBracket
      split
      case h_1 hc => exact h.cons hc
      case h_2 =>
        split
        case isTrue => exact fun c hc => h c (.tail _ hc)
        case isFalse => exact h

theorem AreClosers.of_reaches (hc : AreClosers closers)
    (h : Reaches profile buf angle i closers k stack) : AreClosers stack := by
  induction h
  case refl => exact hc
  case step ih => exact ih hc.stepInOrder

theorem not_bracket_of_string? (angle : Bool) (h : string? buf i = some j) :
    opens? buf angle i = none ∧ ∀ c ∈ ")]\x7d>".toList, buf.isChar i c = false := by
  unfold string? at h
  split at h
  case h_2 => cases h
  case h_1 q hq =>
    split at h
    case isFalse => cases h
    case isTrue hquote =>
      have hi : buf.isChar i q = true := by simp [Buffer.isChar, hq]
      refine ⟨?opens, fun c hc => ?closes⟩
      case opens =>
        unfold opens?
        rw [hq]
        rcases hquote with rfl | rfl <;> rfl
      case closes =>
        rw [Bool.eq_false_iff]
        intro hc'
        obtain rfl := Buffer.eq_of_isChar hi hc'
        rcases hquote with rfl | rfl <;> revert hc <;> decide

-- The token at `k` is not both the start of a comment and a bracket of the block around it.
def ClearAt (profile : Profile) (buf : Buffer) (angle : Bool) (k : Nat) (closer : Char) : Prop :=
  (comment? profile buf k).isSome = true → opens? buf angle k = none ∧ buf.isChar k closer = false

-- One step of the skip, which finds a bracket before it looks for a comment.
theorem closeBlocks_step (hi : i < buf.size) (hc : AreClosers (closer :: outer))
    (h : ClearAt profile buf angle i closer) :
    closeBlocks profile buf angle i (closer :: outer) =
      closeBlocks profile buf angle (stepInOrder profile buf angle i closer outer).1
        (stepInOrder profile buf angle i closer outer).2 := by
  unfold stepInOrder
  cases hcomment : comment? profile buf i
  case some j =>
    obtain ⟨ho, hn⟩ := h (by simp [hcomment])
    exact closeBlocks_quoted hi ho hn (by simp [quoted?, hcomment])
  case none =>
    cases hstring : string? buf i
    case some j =>
      obtain ⟨ho, hn⟩ := not_bracket_of_string? angle hstring
      exact closeBlocks_quoted hi ho (hn closer (hc closer (.head _)))
        (by simp [quoted?, hcomment, hstring])
    case none =>
      have hquoted : quoted? profile buf i = none := by simp [quoted?, hcomment, hstring]
      unfold afterBracket
      cases ho : opens? buf angle i
      case some => exact closeBlocks_open hi ho
      case none =>
        cases hn : buf.isChar i closer
        case true => exact closeBlocks_close hi ho hn
        case false => exact closeBlocks_other hi ho hn hquoted

theorem closeBlocks_eq_closeInOrder (hc : AreClosers closers)
    (h : ∀ k closer outer, Reaches profile buf angle i closers k (closer :: outer) →
      ClearAt profile buf angle k closer) :
    closeBlocks profile buf angle i closers = closeInOrder profile buf angle i closers := by
  fun_induction closeInOrder profile buf angle i closers
  case case1 => exact closeBlocks_nil
  case case2 i closer outer hi ih =>
    rw [closeBlocks_step hi hc (h i closer outer (.refl ..))]
    exact ih hc.stepInOrder fun k _ _ hk => h k _ _ (.step hi hk)
  case case3 hi => exact closeBlocks_end (Nat.le_of_not_lt hi)

-- No comment to which the search of the block at `i` comes starts at a bracket of the blocks that
-- are open there.
def Clear (profile : Profile) (buf : Buffer) (angle : Bool) (i : Nat) : Prop :=
  ∀ c ∈ opens? buf angle i, ∀ k closer outer,
    Reaches profile buf angle (i + 1) [c] k (closer :: outer) → ClearAt profile buf angle k closer

theorem head?_of_matchesAt {s : String} {c : Char} (h : buf.matchesAt i s = true)
    (hc : buf.isChar i c = true) : s.toList.head? = some c := by
  obtain ⟨n, hn⟩ := Option.isSome_iff_exists.mp h
  have hs := buf.ne_nil_of_matchLength? hn
  obtain ⟨t, ht, -, hhead⟩ := Buffer.isChar_iff.mp hc
  rw [Buffer.matchLength?, if_neg hs, Buffer.cover?, if_neg hs,
    if_pos (Buffer.lt_size_of_token ht)] at hn
  obtain ⟨rest, hrest, -⟩ := Option.bind_eq_some_iff.mp hn
  rw [Buffer.dropLead?_eq_some] at hrest
  rw [hrest, List.head?_append]
  simp [Buffer.chars, ht, hhead]

theorem exists_starter_of_comment? (h : (comment? profile buf i).isSome = true) :
    ∃ s ∈ profile.starters, buf.matchesAt i s = true := by
  obtain ⟨j, hj⟩ := Option.isSome_iff_exists.mp h
  simp only [comment?, Option.or_eq_some_iff, blockComment?, lineComment?,
    Option.map_eq_some_iff] at hj
  rcases hj with ⟨s, hs, -⟩ | ⟨-, s, hs, -⟩
  case inl =>
    have hmem := List.mem_of_find?_eq_some hs
    exact ⟨s.opener, List.mem_append_right _ (List.mem_map_of_mem hmem),
      by simpa using List.find?_some hs⟩
  case inr =>
    exact ⟨s, List.mem_append_left _ (List.mem_of_find?_eq_some hs), List.find?_some hs⟩

theorem clear_of_starters
    (h : ∀ s ∈ profile.starters, ∀ c ∈ s.toList.head?, c ∉ "()[]\x7b\x7d<>".toList) :
    Clear profile buf angle i := by
  intro c hc k closer outer hk hcomment
  obtain ⟨s, hs, hm⟩ := exists_starter_of_comment? hcomment
  have hnot {b : Char} (hb : b ∈ "()[]\x7b\x7d<>".toList) : buf.isChar k b = false := by
    rw [Bool.eq_false_iff]
    exact fun hk => h s hs b (head?_of_matchesAt hm hk) hb
  constructor
  case left =>
    by_contra ho
    obtain ⟨d, hd⟩ := Option.ne_none_iff_exists'.mp ho
    obtain ⟨b, hb, hi, _⟩ := exists_of_opens? hd
    have hsub : ∀ b ∈ "([\x7b<".toList, b ∈ "()[]\x7b\x7d<>".toList := by decide
    exact Bool.eq_false_iff.mp (hnot (hsub b hb)) hi
  case right =>
    have hsub : ∀ b ∈ ")]\x7d>".toList, b ∈ "()[]\x7b\x7d<>".toList := by decide
    obtain ⟨_, _, _, hm⟩ := exists_of_opens? hc
    have hc : AreClosers [c] := by simpa [AreClosers] using hm
    exact hnot (hsub closer (hc.of_reaches hk closer (.head _)))

-- A block ends where the search ends that tries comments before strings and strings before
-- brackets, unless a comment to which that search comes starts at a bracket of an open block. And
-- where it comes to a comment, the block ends as it does behind the comment, whatever stands in it.
theorem block_in_order (profile : Profile) (buf : Buffer) (angle : Bool) (i : Nat)
    (h : Clear profile buf angle i) :
    block? profile buf angle i = blockInOrder? profile buf angle i ∧
      ∀ c ∈ opens? buf angle i, ∀ k closer outer j,
        Reaches profile buf angle (i + 1) [c] k (closer :: outer) →
        comment? profile buf k = some j →
        block? profile buf angle i = some (closeBlocks profile buf angle j (closer :: outer)) := by
  have hclosers {c : Char} (hc : c ∈ opens? buf angle i) : AreClosers [c] := by
    obtain ⟨_, _, _, hm⟩ := exists_of_opens? hc
    simpa [AreClosers] using hm
  have heq : block? profile buf angle i = blockInOrder? profile buf angle i :=
    Option.map_congr fun c hc => closeBlocks_eq_closeInOrder (hclosers hc) (h c hc)
  refine ⟨heq, fun c hc k closer outer j hk hj => ?_⟩
  -- The step over the comment leaves the brackets that are open as they are.
  have hstep : stepInOrder profile buf angle k closer outer = (j, closer :: outer) := by
    rw [stepInOrder, hj]
  have hlt : k < buf.size := by
    obtain ⟨s, -, hm⟩ := exists_starter_of_comment? (by rw [hj]; rfl)
    exact lt_size_of_matchesAt buf hm
  have hreach : Reaches profile buf angle (i + 1) [c] j (closer :: outer) :=
    hk.trans (.step hlt (by rw [hstep]; exact .refl ..))
  rw [heq, blockInOrder?, hc, Option.map_some, closeInOrder_of_reaches hreach,
    closeBlocks_eq_closeInOrder ((hclosers hc).of_reaches hreach)
      fun k _ _ hk => h c hc k _ _ (hreach.trans hk)]

-- A closing bracket in a string and one in a comment.
theorem block_in_order_string :
    let buf := Buffer.ofChars "(a, \")\", /* ) */ b) c".toList
    Clear .builtinC buf false 0 ∧
      block? .builtinC buf false 0 = blockInOrder? .builtinC buf false 0 ∧
      block? .builtinC buf false 0 = some 19 := by
  intro buf
  have hclear : Clear .builtinC buf false 0 := clear_of_starters (by decide)
  exact ⟨hclear, (block_in_order .builtinC buf false 0 hclear).1, by decide +kernel⟩

-- The brace that starts the comment is read as a bracket, and then the apostrophe starts a string.
theorem apostrophe_in_comment_read_as_string :
    let buf := Buffer.ofChars "(a \x7bit's\x7d b) c".toList
    block? .builtinPascal buf false 0 = some 13 ∧
      blockInOrder? .builtinPascal buf false 0 = some 11 ∧ buf.size = 13 := by
  decide +kernel

end SourceDocs.Skip

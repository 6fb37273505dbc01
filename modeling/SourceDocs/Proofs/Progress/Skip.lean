import SourceDocs.Proofs.Nesting
import SourceDocs.Proofs.Progress.Loop
import SourceDocs.Prototype.Word

namespace SourceDocs

namespace Buffer

def seekRound (p : Nat → Bool) (stop i : Nat) : Round Nat Nat :=
  if i < stop then
    if p i then .done i else .again (i + 1)
  else
    .done i

theorem ends_seek (p : Nat → Bool) (stop : Nat) :
    Loop.Ends (seekRound p stop) (stop - ·) (seek p · stop) := by
  refine Loop.ends (fun i => ?result) fun i => ?nearer
  case result => fun_cases seek p i stop <;> simp [seekRound, Round.result, *]
  case nearer =>
    fun_cases seekRound p stop i
    case case2 => exact .again (by omega)
    all_goals exact .done

def retreatRound (p : Nat → Bool) (start j : Nat) : Round Nat Nat :=
  if start < j ∧ p (j - 1) then .again (j - 1) else .done j

theorem ends_retreat (p : Nat → Bool) (start : Nat) :
    Loop.Ends (retreatRound p start) id (retreat p start) := by
  refine Loop.ends (fun j => ?result) fun j => ?nearer
  case result =>
    fun_cases retreat p start j
    case case1 => simp [retreatRound, Round.result]
    case case2 j h =>
      have : retreatRound p start (j + 1) = .again j := if_pos h
      rw [this, Round.result]
    case case3 j h =>
      have : retreatRound p start (j + 1) = .done (j + 1) := if_neg h
      rw [this, Round.result]
  case nearer =>
    fun_cases retreatRound p start j
    case case1 => exact .again (by dsimp only [id]; omega)
    case case2 => exact .done

end Buffer

namespace Skip

variable {profile : Profile} {buf : Buffer} {i j : Nat}

theorem closeString_le {quote : Char} (hi : i ≤ buf.size) : closeString buf quote i ≤ buf.size := by
  fun_induction closeString buf quote i
  case case1 hlt _ => exact hlt
  case case2 ih => exact ih (Nat.min_le_right ..)
  case case3 hlt _ _ ih => exact ih hlt
  case case4 => exact hi

theorem closeComments_le {closers : List String} (hi : i ≤ buf.size) :
    closeComments profile buf i closers ≤ buf.size := by
  fun_induction closeComments profile buf i closers
  case case1 => exact hi
  case case2 h ih => exact ih (buf.skip?_le h)
  case case3 ih => exact ih (buf.afterChars_le hi)
  case case4 hlt _ _ ih => exact ih hlt
  case case5 => exact hi

-- A skip from `i` goes on behind `i`, and in the text or at its end.
def Forward (buf : Buffer) (skip : Nat → Option Nat) : Prop :=
  ∀ i j, skip i = some j → i < j ∧ j ≤ buf.size

theorem Forward.or {skip skip' : Nat → Option Nat} (h : Forward buf skip) (h' : Forward buf skip') :
    Forward buf fun i => (skip i).or (skip' i) := by
  intro i j hj
  rw [Option.or_eq_some_iff] at hj
  rcases hj with hj | ⟨-, hj⟩
  · exact h i j hj
  · exact h' i j hj

theorem forward_lineComment (profile : Profile) (buf : Buffer) :
    Forward buf (lineComment? profile buf) := by
  intro i j h
  refine ⟨lt_lineComment? profile buf h, ?_⟩
  obtain ⟨s, hs, rfl⟩ := Option.map_eq_some_iff.mp h
  have hi := lt_size_of_matchesAt buf (List.find?_some hs)
  exact Buffer.seek_le _ (buf.afterChars_le (Nat.le_of_lt hi))

theorem forward_blockComment (profile : Profile) (buf : Buffer) :
    Forward buf (blockComment? profile buf) := by
  intro i j h
  refine ⟨lt_blockComment? profile buf h, ?_⟩
  obtain ⟨s, hs, rfl⟩ := Option.map_eq_some_iff.mp h
  have hi := lt_size_of_matchesAt buf (by simpa using List.find?_some hs)
  exact closeComments_le (buf.afterChars_le (Nat.le_of_lt hi))

theorem forward_comment (profile : Profile) (buf : Buffer) :
    Forward buf (comment? profile buf) :=
  (forward_blockComment profile buf).or (forward_lineComment profile buf)

theorem forward_string (buf : Buffer) : Forward buf (string? buf) := by
  intro i j h
  refine ⟨lt_string? buf h, ?_⟩
  unfold string? at h
  split at h
  case h_1 c hc =>
    rw [Option.ite_none_right_eq_some] at h
    have hi := buf.lt_size_of_isChar (i := i) (c := c) (by simp [Buffer.isChar, hc])
    exact Option.some.inj h.2 ▸ closeString_le hi
  case h_2 => cases h

theorem forward_quoted (profile : Profile) (buf : Buffer) : Forward buf (quoted? profile buf) :=
  (forward_comment profile buf).or (forward_string buf)

theorem closeBlocks_le {angle : Bool} {closers : List Char} (hi : i ≤ buf.size) :
    closeBlocks profile buf angle i closers ≤ buf.size := by
  fun_induction closeBlocks profile buf angle i closers
  case case1 => exact hi
  case case4 hq ih => exact ih (forward_quoted profile buf _ _ hq).2
  case case6 => exact hi
  case case2 hlt _ _ ih => exact ih hlt
  case case3 hlt _ _ ih => exact ih hlt
  case case5 hlt _ _ _ ih => exact ih hlt

theorem forward_block (profile : Profile) (buf : Buffer) (angle : Bool) :
    Forward buf (block? profile buf angle) := by
  intro i j h
  refine ⟨lt_block? profile buf h, ?_⟩
  obtain ⟨c, hc, rfl⟩ := Option.map_eq_some_iff.mp h
  obtain ⟨b, -, hb, -⟩ := exists_of_opens? hc
  exact closeBlocks_le (buf.lt_size_of_isChar hb)

theorem forward_enclosed (profile : Profile) (buf : Buffer) (angle : Bool) :
    Forward buf (enclosed? profile buf angle) :=
  (forward_quoted profile buf).or (forward_block profile buf angle)

-- Every skip goes forward. A name goes on up to the end that is set for it, and so does a word,
-- which begins where it is found.
structure Progress (profile : Profile) (buf : Buffer) : Prop where
  lineComment : Forward buf (lineComment? profile buf)
  blockComment : Forward buf (blockComment? profile buf)
  comment : Forward buf (comment? profile buf)
  string : Forward buf (string? buf)
  quoted : Forward buf (quoted? profile buf)
  block (angle : Bool) : Forward buf (block? profile buf angle)
  enclosed (angle : Bool) : Forward buf (enclosed? profile buf angle)
  name (limit i j : Nat) (h : name? profile buf limit i = some j) : i < j ∧ j ≤ limit
  word (limit i : Nat) (w : Word) (hi : i < limit) (h : Word.at? profile buf limit i = some w) :
    w.start = i ∧ i < w.stop ∧ w.stop ≤ limit

theorem progress (profile : Profile) (buf : Buffer) : Progress profile buf where
  lineComment := forward_lineComment profile buf
  blockComment := forward_blockComment profile buf
  comment := forward_comment profile buf
  string := forward_string buf
  quoted := forward_quoted profile buf
  block := forward_block profile buf
  enclosed := forward_enclosed profile buf
  name _ _ _ h := ⟨lt_name? profile buf h, name?_le profile buf h⟩
  word _ _ _ hi h :=
    ⟨Word.start_of_at? profile buf h, Word.lt_stop_of_at? profile buf hi h,
      Word.stop_le_of_at? profile buf h⟩

def stringRound (buf : Buffer) (quote : Char) (i : Nat) : Round Nat Nat :=
  if i < buf.size then
    if buf.isChar i quote then .done (i + 1)
    else if buf.isChar i '\\' then .again (min (i + 2) buf.size)
    else .again (i + 1)
  else
    .done i

theorem ends_closeString (buf : Buffer) (quote : Char) :
    Loop.Ends (stringRound buf quote) (buf.size - ·) (closeString buf quote) := by
  refine Loop.ends (fun i => ?result) fun i => ?nearer
  case result => fun_cases closeString buf quote i <;> simp [stringRound, Round.result, *]
  case nearer =>
    fun_cases stringRound buf quote i
    case case2 => exact .again (by omega)
    case case3 => exact .again (by omega)
    all_goals exact .done

def commentRound (profile : Profile) (buf : Buffer) :
    Nat × List String → Round (Nat × List String) Nat
  | (i, []) => .done i
  | (i, closer :: outer) =>
    if i < buf.size then
      match buf.skip? i closer false with
      | some j => .again (j, outer)
      | none =>
        match if profile.blockCommentsNest then blockSymbols? profile buf i else none with
        | some s =>
          .again (buf.afterChars i s.opener.utf8ByteSize, s.closer :: closer :: outer)
        | none => .again (i + 1, closer :: outer)
    else
      .done i

theorem ends_closeComments (profile : Profile) (buf : Buffer) :
    Loop.Ends (commentRound profile buf) (buf.size - ·.1)
      (fun s => closeComments profile buf s.1 s.2) := by
  refine Loop.ends (fun s => ?result) fun s => ?nearer
  case result =>
    obtain ⟨i, closers⟩ := s
    fun_cases closeComments profile buf i closers <;> simp [commentRound, Round.result, *]
  case nearer =>
    fun_cases commentRound profile buf s
    case case2 hj =>
      have := buf.lt_skip? hj
      exact .again (by dsimp only; omega)
    case case3 hs =>
      have := lt_afterChars_of_blockSymbols? profile buf (Option.ite_none_right_eq_some.mp hs).2
      exact .again (by dsimp only; omega)
    case case4 => exact .again (by dsimp only; omega)
    all_goals exact .done

def blockRound (profile : Profile) (buf : Buffer) (angle : Bool) :
    Nat × List Char → Round (Nat × List Char) Nat
  | (i, []) => .done i
  | (i, closer :: outer) =>
    if i < buf.size then
      match opens? buf angle i with
      | some c => .again (i + 1, c :: closer :: outer)
      | none =>
        if buf.isChar i closer then .again (i + 1, outer)
        else
          match quoted? profile buf i with
          | some j => .again (j, closer :: outer)
          | none => .again (i + 1, closer :: outer)
    else
      .done i

theorem ends_closeBlocks (profile : Profile) (buf : Buffer) (angle : Bool) :
    Loop.Ends (blockRound profile buf angle) (buf.size - ·.1)
      (fun s => closeBlocks profile buf angle s.1 s.2) := by
  refine Loop.ends (fun s => ?result) fun s => ?nearer
  case result =>
    obtain ⟨i, closers⟩ := s
    fun_cases closeBlocks profile buf angle i closers <;> simp [blockRound, Round.result, *]
  case nearer =>
    fun_cases blockRound profile buf angle s
    case case4 hj =>
      have := lt_quoted? profile buf hj
      exact .again (by dsimp only; omega)
    case case1 => exact .done
    case case6 => exact .done
    all_goals exact .again (by dsimp only; omega)

def suffixRound (buf : Buffer) (limit : Nat) (s : Nat × Nat) : Round (Nat × Nat) Nat :=
  if s.2 < limit ∧ isTypeSuffix buf s.2 then
    .again (s.2 + 1, buf.afterBlanks (s.2 + 1) limit)
  else
    .done s.1

theorem ends_afterSuffixes (buf : Buffer) (limit : Nat) :
    Loop.Ends (suffixRound buf limit) (limit - ·.2)
      (fun s => afterSuffixes buf limit s.1 s.2) := by
  refine Loop.ends (fun s => ?result) fun s => ?nearer
  case result =>
    fun_cases afterSuffixes buf limit s.1 s.2 <;> simp [suffixRound, Round.result, *]
  case nearer =>
    fun_cases suffixRound buf limit s
    case case1 h =>
      have := buf.le_afterBlanks (s.2 + 1) limit
      exact .again (by dsimp only; omega)
    case case2 => exact .done

def nameRound (profile : Profile) (buf : Buffer) (limit i : Nat) : Round Nat Nat :=
  if i < limit then
    if buf.isText i || isNameSymbol buf i || buf.isChar i '.' || buf.isChar i '?' then
      .again (i + 1)
    else if buf.matchesAt i "::" then .again (i + 2)
    else if buf.isChar i '<' then
      match typeArguments? profile buf limit i with
      | some j => .again j
      | none => .again (Buffer.seek (!buf.isChar · '<') (i + 1) limit)
    else
      match block? profile buf false i with
      | some j => if j ≤ limit then .again j else .done i
      | none =>
        if buf.isBlank i then .done (afterSuffixes buf limit i (buf.afterBlanks i limit))
        else .done i
  else
    .done i

theorem ends_nameEnd (profile : Profile) (buf : Buffer) (limit : Nat) :
    Loop.Ends (nameRound profile buf limit) (limit - ·) (nameEnd profile buf limit) := by
  refine Loop.ends (fun i => ?result) fun i => ?nearer
  case result => fun_cases nameEnd profile buf limit i <;> simp [nameRound, Round.result, *]
  case nearer =>
    fun_cases nameRound profile buf limit i
    case case1 => exact .again (by omega)
    case case2 => exact .again (by omega)
    case case3 hj =>
      have := lt_typeArguments? profile buf hj
      exact .again (by omega)
    case case4 =>
      have := Buffer.le_seek (!buf.isChar · '<') (i + 1) limit
      exact .again (by omega)
    case case5 hj _ =>
      have := lt_block? profile buf hj
      exact .again (by omega)
    all_goals exact .done

structure LoopsEnd (profile : Profile) (buf : Buffer) : Prop where
  seek (p : Nat → Bool) (stop : Nat) :
    Loop.Ends (Buffer.seekRound p stop) (stop - ·) (Buffer.seek p · stop)
  retreat (p : Nat → Bool) (start : Nat) :
    Loop.Ends (Buffer.retreatRound p start) id (Buffer.retreat p start)
  string (quote : Char) :
    Loop.Ends (stringRound buf quote) (buf.size - ·) (closeString buf quote)
  comments :
    Loop.Ends (commentRound profile buf) (buf.size - ·.1)
      (fun s => closeComments profile buf s.1 s.2)
  blocks (angle : Bool) :
    Loop.Ends (blockRound profile buf angle) (buf.size - ·.1)
      (fun s => closeBlocks profile buf angle s.1 s.2)
  suffixes (limit : Nat) :
    Loop.Ends (suffixRound buf limit) (limit - ·.2) (fun s => afterSuffixes buf limit s.1 s.2)
  name (limit : Nat) :
    Loop.Ends (nameRound profile buf limit) (limit - ·) (nameEnd profile buf limit)

theorem loopsEnd (profile : Profile) (buf : Buffer) : LoopsEnd profile buf where
  seek := Buffer.ends_seek
  retreat := Buffer.ends_retreat
  string := ends_closeString buf
  comments := ends_closeComments profile buf
  blocks := ends_closeBlocks profile buf
  suffixes := ends_afterSuffixes buf
  name := ends_nameEnd profile buf

end Skip
end SourceDocs

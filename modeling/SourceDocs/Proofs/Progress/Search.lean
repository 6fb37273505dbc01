import SourceDocs.Proofs.Progress.Skip
import SourceDocs.Proofs.Window
import SourceDocs.Prototype.Parse

namespace SourceDocs.Prototype

variable (profile : Profile) (buf : Buffer)

def codeRound (endLine line : Nat) : Round Nat (Option Nat) :=
  if line < endLine ∧ line ≤ buf.lineCount then
    let first := buf.afterBlanks (buf.lineStart line) buf.size
    if first < buf.size ∧ !buf.isLineBreak first then .done (some first) else .again (line + 1)
  else
    .done none

theorem ends_codeStart? (endLine : Nat) :
    Loop.Ends (codeRound buf endLine) (buf.lineCount + 1 - ·) (codeStart? buf endLine) := by
  refine Loop.ends (fun line => ?result) fun line => ?nearer
  case result =>
    fun_cases codeStart? buf endLine line
    case case1 hl first hfirst =>
      have : codeRound buf endLine line = .done (some first) := by
        rw [codeRound, if_pos hl]
        exact if_pos hfirst
      rw [this, Round.result]
    case case2 hl first hfirst =>
      have : codeRound buf endLine line = .again (line + 1) := by
        rw [codeRound, if_pos hl]
        exact if_neg hfirst
      rw [this, Round.result]
    case case3 hl => rw [codeRound, if_neg hl, Round.result]
  case nearer =>
    fun_cases codeRound buf endLine line
    case case2 => exact .again (by omega)
    all_goals exact .done

structure Searching where
  place : Nat
  extended : Bool
  polls : Nat

def enderRound (enders : Enders) (limit : Nat) (signal : Signal) (s : Searching) :
    Round Searching (Outcome (Option Nat) × Nat) :=
  if s.place < limit then
    if buf.isLineBreak s.place then
      if signal s.polls then .done (.cancelled, s.polls + 1)
      else if enders.lineBreaks && !s.extended then
        .done (.completed (some s.place), s.polls + 1)
      else .again ⟨s.place + 1, false, s.polls + 1⟩
    else
      match extender? profile buf s.place with
      | some e =>
        .again ⟨buf.afterChars s.place e.utf8ByteSize,
          s.extended || !isInIdentifier buf s.place e, s.polls⟩
      | none =>
        if endsAt profile buf enders s.place then .done (.completed (some s.place), s.polls)
        else
          match Skip.enclosed? profile buf false s.place with
          | some j => .again { s with place := j }
          | none => .again { s with place := s.place + 1 }
  else
    .done (.completed none, s.polls)

theorem ends_findEnder (enders : Enders) (limit : Nat) (signal : Signal) :
    Loop.Ends (enderRound profile buf enders limit signal) (limit - ·.place)
      (fun s => findEnder profile buf enders limit s.extended s.place signal s.polls) := by
  refine Loop.ends (fun s => ?result) fun s => ?nearer
  case result =>
    fun_cases findEnder profile buf enders limit s.extended s.place
    case case1 =>
      rw [Poll.check_bind_apply]
      split
      case isTrue => simp [enderRound, Round.result, *]
      case isFalse => split <;> simp [enderRound, Round.result, *]; rfl
    all_goals simp [enderRound, Round.result, *]
    all_goals rfl
  case nearer =>
    fun_cases enderRound profile buf enders limit signal s
    case case3 => exact .again (by dsimp only; omega)
    case case4 hx =>
      have := lt_afterChars_of_extender? profile buf hx
      exact .again (by dsimp only; omega)
    case case6 hj =>
      have := Skip.lt_enclosed? profile buf hj
      exact .again (by dsimp only; omega)
    case case7 => exact .again (by dsimp only; omega)
    all_goals exact .done

def normalRound (stop : Nat) (s : List Char × Nat) : Round (List Char × Nat) (List Char) :=
  if s.2 < stop then
    if buf.isLineBreak s.2 || buf.isBlank s.2 then .again (withSpace s.1, s.2 + 1)
    else
      match extender? profile buf s.2 with
      | some e =>
        .again (if isInIdentifier buf s.2 e then s.1 ++ e.toList else withSpace s.1,
          buf.afterChars s.2 e.utf8ByteSize)
      | none =>
        match Skip.blockComment? profile buf s.2 with
        | some j =>
          let out :=
            match keptComment? profile (buf.slice s.2 (min j stop)) with
            | some kept => s.1 ++ kept
            | none => withSpace s.1
          .again (out, min j stop)
        | none =>
          match Skip.lineComment? profile buf s.2 with
          | some j => .again (withSpace s.1, min j stop)
          | none =>
            match Skip.string? buf s.2 with
            | some j => .again (s.1 ++ buf.slice s.2 (min j stop), min j stop)
            | none => .again (s.1 ++ buf.chars s.2, s.2 + 1)
  else
    .done s.1

theorem ends_normalizeFrom (stop : Nat) :
    Loop.Ends (normalRound profile buf stop) (stop - ·.2)
      (fun s => normalizeFrom profile buf stop s.1 s.2) := by
  refine Loop.ends (fun s => ?result) fun s => ?nearer
  case result =>
    fun_cases normalizeFrom profile buf stop s.1 s.2
    case case3 j _ _ =>
      cases hk : keptComment? profile (buf.slice s.2 (min j stop))
      all_goals simp +zetaDelta [normalRound, Round.result, *]
    all_goals simp +zetaDelta [normalRound, Round.result, *]
  case nearer =>
    fun_cases normalRound profile buf stop s
    case case2 hx =>
      have := lt_afterChars_of_extender? profile buf hx
      exact .again (by dsimp only; omega)
    case case3 hj _ =>
      have := Skip.lt_blockComment? profile buf hj
      exact .again (by dsimp only; omega)
    case case4 hj =>
      have := Skip.lt_lineComment? profile buf hj
      exact .again (by dsimp only; omega)
    case case5 hj =>
      have := Skip.lt_string? buf hj
      exact .again (by dsimp only; omega)
    case case7 => exact .done
    all_goals exact .again (by dsimp only; omega)

def openingRound (i : Nat) : Round Nat (Option (Nat × Char)) :=
  if i < buf.size then
    match Skip.quoted? profile buf i with
    | some j => .again j
    | none =>
      if buf.isChar i '(' then .done (some (i, ')'))
      else if buf.isChar i '[' && buf.isToken (buf.lastNonBlank (i - 1)) "this" then
        .done (some (i, ']'))
      else if buf.isChar i '\x7b' then .done (some (i, '\x7d'))
      else .again (i + 1)
  else
    .done none

theorem ends_listOpening? :
    Loop.Ends (openingRound profile buf) (buf.size - ·) (listOpening? profile buf) := by
  refine Loop.ends (fun i => ?result) fun i => ?nearer
  case result => fun_cases listOpening? profile buf i <;> simp [openingRound, Round.result, *]
  case nearer =>
    fun_cases openingRound profile buf i
    case case1 hj =>
      have := Skip.lt_quoted? profile buf hj
      exact .again (by omega)
    case case5 => exact .again (by omega)
    all_goals exact .done

-- A round over a parameter list, from the separators found so far and the next position.
def separatorRound (closer : Char) (s : List Nat × Nat) :
    Round (List Nat × Nat) (List Nat × Option Nat) :=
  if s.2 < buf.size then
    if isListSeparator buf s.2 then .again (s.1 ++ [s.2], s.2 + 1)
    else if buf.isChar s.2 closer then .done (s.1, some s.2)
    else
      match Skip.enclosed? profile buf true s.2 with
      | some j => .again (s.1, j)
      | none => .again (s.1, s.2 + 1)
  else
    .done (s.1, none)

theorem ends_listSeparators (closer : Char) :
    Loop.Ends (separatorRound profile buf closer) (buf.size - ·.2) (fun s =>
      (s.1 ++ (listSeparators profile buf closer s.2).1,
        (listSeparators profile buf closer s.2).2)) := by
  refine Loop.ends (fun s => ?result) fun s => ?nearer
  case result =>
    fun_cases listSeparators profile buf closer s.2 <;> simp [separatorRound, Round.result, *]
    case case1 => exact ⟨rfl, rfl⟩
  case nearer =>
    fun_cases separatorRound profile buf closer s
    case case3 hj =>
      have := Skip.lt_enclosed? profile buf hj
      exact .again (by dsimp only; omega)
    case case1 => exact .again (by dsimp only; omega)
    case case4 => exact .again (by dsimp only; omega)
    all_goals exact .done

structure SearchEnds : Prop where
  code (endLine : Nat) :
    Loop.Ends (codeRound buf endLine) (buf.lineCount + 1 - ·) (codeStart? buf endLine)
  ender (enders : Enders) (limit : Nat) (signal : Signal) :
    Loop.Ends (enderRound profile buf enders limit signal) (limit - ·.place)
      (fun s => findEnder profile buf enders limit s.extended s.place signal s.polls)
  normal (stop : Nat) :
    Loop.Ends (normalRound profile buf stop) (stop - ·.2)
      (fun s => normalizeFrom profile buf stop s.1 s.2)
  opening : Loop.Ends (openingRound profile buf) (buf.size - ·) (listOpening? profile buf)
  separators (closer : Char) :
    Loop.Ends (separatorRound profile buf closer) (buf.size - ·.2) (fun s =>
      (s.1 ++ (listSeparators profile buf closer s.2).1,
        (listSeparators profile buf closer s.2).2))

theorem searchEnds : SearchEnds profile buf where
  code := ends_codeStart? buf
  ender := ends_findEnder profile buf
  normal := ends_normalizeFrom profile buf
  opening := ends_listOpening? profile buf
  separators := ends_listSeparators profile buf

end SourceDocs.Prototype

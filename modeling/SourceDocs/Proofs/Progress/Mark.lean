import SourceDocs.Proofs.Progress.Search
import SourceDocs.Proofs.Roles

namespace SourceDocs

variable (profile : Profile) (buf : Buffer)

def Word.readRound (halt : Nat → Bool) (limit : Nat) (s : List Word × Nat) :
    Round (List Word × Nat) (List Word × Nat) :=
  if s.2 < limit then
    if halt s.2 then .done s
    else
      match Word.at? profile buf limit s.2 with
      | some w => .again (s.1 ++ [w], w.stop)
      | none => .again (s.1, s.2 + 1)
  else
    .done s

theorem Word.ends_read (halt : Nat → Bool) (limit : Nat) :
    Loop.Ends (readRound profile buf halt limit) (limit - ·.2) (fun s =>
      (s.1 ++ (read profile buf halt limit s.2).1, (read profile buf halt limit s.2).2)) := by
  refine Loop.ends (fun s => ?result) fun s => ?nearer
  case result =>
    fun_cases read profile buf halt limit s.2 <;> simp [readRound, Round.result, *]
    case case2 => exact ⟨rfl, rfl⟩
  case nearer =>
    fun_cases readRound profile buf halt limit s
    case case2 hi _ w hw =>
      have := lt_stop_of_at? profile buf hi hw
      exact .again (by dsimp only; omega)
    case case3 => exact .again (by dsimp only; omega)
    all_goals exact .done

namespace Prototype

def colonRound (stop i : Nat) : Round Nat Bool :=
  if i < stop then
    if isDefault buf i then .done false
    else if buf.matchesAt i "::" then .again (i + 2)
    else if buf.isChar i ':' then .done true
    else
      match Word.at? profile buf stop i with
      | some w => .again w.stop
      | none => .again (i + 1)
  else
    .done false

theorem ends_hasColon (stop : Nat) :
    Loop.Ends (colonRound profile buf stop) (stop - ·) (hasColon profile buf stop) := by
  refine Loop.ends (fun i => ?result) fun i => ?nearer
  case result => fun_cases hasColon profile buf stop i <;> simp [colonRound, Round.result, *]
  case nearer =>
    fun_cases colonRound profile buf stop i
    case case2 => exact .again (by omega)
    case case4 hi _ _ _ w hw =>
      have := Word.lt_stop_of_at? profile buf hi hw
      exact .again (by omega)
    case case5 => exact .again (by omega)
    all_goals exact .done

def surveyRound (stop : Nat) (s : Survey × Nat) : Round (Survey × Nat) Survey :=
  if s.2 < stop then
    if isDefault buf s.2 then .done { s.1 with roles := markDefault buf s.1.roles s.2 stop }
    else if buf.matchesAt s.2 "::" then .again (s.1, s.2 + 2)
    else if buf.isChar s.2 ':' then
      .again (⟨s.1.roles.set s.2 (some .nameTypeSeparator), s.1.words, s.1.words⟩, s.2 + 1)
    else
      match Word.at? profile buf stop s.2 with
      | some w => .again ({ s.1 with words := s.1.words + 1 }, w.stop)
      | none => .again (s.1, s.2 + 1)
  else
    .done s.1

theorem ends_survey (stop : Nat) :
    Loop.Ends (surveyRound profile buf stop) (stop - ·.2)
      (fun s => survey profile buf stop s.1 s.2) := by
  refine Loop.ends (fun s => ?result) fun s => ?nearer
  case result =>
    fun_cases survey profile buf stop s.1 s.2 <;> simp [surveyRound, Round.result, *]
  case nearer =>
    fun_cases surveyRound profile buf stop s
    case case4 hi _ _ _ w hw =>
      have := Word.lt_stop_of_at? profile buf hi hw
      exact .again (by dsimp only; omega)
    case case1 => exact .done
    case case6 => exact .done
    all_goals exact .again (by dsimp only; omega)

def qualifiedRound (stop i : Nat) : Round Nat Nat :=
  if i < stop then
    if isIdentifier buf i || buf.isChar i '.' then .again (i + 1)
    else if buf.matchesAt i "::" then .again (i + 2)
    else .done i
  else
    .done i

theorem ends_qualifiedEnd (stop : Nat) :
    Loop.Ends (qualifiedRound buf stop) (stop - ·) (qualifiedEnd buf stop) := by
  refine Loop.ends (fun i => ?result) fun i => ?nearer
  case result => fun_cases qualifiedEnd buf stop i <;> simp [qualifiedRound, Round.result, *]
  case nearer =>
    fun_cases qualifiedRound buf stop i
    case case1 => exact .again (by omega)
    case case2 => exact .again (by omega)
    all_goals exact .done

def nameSuffixRound (stop : Nat) (s : Roles × Nat) : Round (Roles × Nat) Roles :=
  if s.2 < stop then
    match (Skip.block? profile buf true s.2).filter (· ≤ stop) with
    | some j =>
      let roles := s.1.set s.2 (some .openingNameSuffix)
      .again (roles.set (j - 1) (some .closingNameSuffix), j)
    | none =>
      .again (if buf.isBlank s.2 then s.1 else s.1.set s.2 (some .nameSuffix), s.2 + 1)
  else
    .done s.1

theorem ends_markNameSuffix (stop : Nat) :
    Loop.Ends (nameSuffixRound profile buf stop) (stop - ·.2)
      (fun s => markNameSuffix profile buf s.1 stop s.2) := by
  refine Loop.ends (fun s => ?result) fun s => ?nearer
  case result =>
    fun_cases markNameSuffix profile buf s.1 stop s.2 <;>
      simp +zetaDelta [nameSuffixRound, Round.result, *]
  case nearer =>
    fun_cases nameSuffixRound profile buf stop s
    case case1 hj _ =>
      have := Skip.lt_block? profile buf (Option.filter_eq_some_iff.1 hj).1
      exact .again (by dsimp only; omega)
    case case2 => exact .again (by dsimp only; omega)
    case case3 => exact .done

def typeRound (stop : Nat) (s : Nat × Nat) : Round (Nat × Nat) (Nat × Nat) :=
  if s.2 < stop then
    if buf.isChar s.2 '.' then .again (s.2 + 1, s.2 + 1)
    else if buf.matchesAt s.2 "::" then .again (s.2 + 2, s.2 + 2)
    else if isIdentifier buf s.2 then .again (s.1, s.2 + 1)
    else .done s
  else
    .done s

theorem ends_typeEnds (stop : Nat) :
    Loop.Ends (typeRound buf stop) (stop - ·.2) (fun s => typeEnds buf stop s.1 s.2) := by
  refine Loop.ends (fun s => ?result) fun s => ?nearer
  case result =>
    fun_cases typeEnds buf stop s.1 s.2 <;> simp [typeRound, Round.result, *]
  case nearer =>
    fun_cases typeRound buf stop s
    case case4 => exact .done
    case case5 => exact .done
    all_goals exact .again (by dsimp only; omega)

def pointerRound (start j : Nat) : Round Nat Nat :=
  let k := Buffer.retreat buf.isBlank (start + 1) j
  if start < k ∧ Skip.isPointer buf (k - 1) then .again (k - 1) else .done k

theorem ends_pointerStart (start : Nat) :
    Loop.Ends (pointerRound buf start) id (pointerStart buf start) := by
  refine Loop.ends (fun j => ?result) fun j => ?nearer
  case result =>
    fun_cases pointerStart buf start j
    case case1 k hk =>
      have : pointerRound buf start j = .again (k - 1) := if_pos hk
      rw [this, Round.result]
    case case2 k hk =>
      have : pointerRound buf start j = .done k := if_neg hk
      rw [this, Round.result]
  case nearer =>
    fun_cases pointerRound buf start j
    case case1 k hk =>
      have := Buffer.retreat_le buf.isBlank (start + 1) j
      exact .again (by dsimp only [id, k] at *; omega)
    case case2 => exact .done

inductive Call
  | type (roles : Roles) (start stop : Nat)
  | typeSuffix (roles : Roles) (stop i : Nat)
  | typeList (roles : Roles) (stop i : Nat)
  | modifiersAndType (roles : Roles) (start stop : Nat)

namespace Call

def result : Call → Roles
  | type roles start stop => markType profile buf roles start stop
  | typeSuffix roles stop i => markTypeSuffix profile buf roles stop i
  | typeList roles stop i => markTypeList profile buf roles stop i
  | modifiersAndType roles start stop => markModifiersAndType profile buf roles start stop

-- How deep the calls behind a call may be nested. Without a smaller range a list is followed only
-- by the modifiers, these by the type, and that by its suffix.
def depth : Call → Nat
  | type _ start stop => 4 * (stop - start) + 1
  | typeSuffix _ stop i => 4 * (stop - i)
  | typeList _ stop i => 4 * (stop - i) + 3
  | modifiersAndType _ start stop => 4 * (stop - start) + 2

def run : (n : Nat) → Call → Option Roles
  | 0, _ => none
  | n + 1, type roles start stop =>
    let first := Buffer.seek (isIdentifier buf) start stop
    let ends := typeEnds buf stop first first
    let roles := roles.setRange start first (some .modifier)
    let roles := roles.setRange first ends.1 (some .typeQualifier)
    let roles := roles.setRange ends.1 ends.2 (some .type)
    run n (typeSuffix roles stop ends.2)
  | n + 1, typeSuffix roles stop i =>
    if i < stop then
      match (Skip.block? profile buf true i).filter (· ≤ stop) with
      | some j => do
        let roles := roles.set i (some .openingTypeSuffix)
        let roles ←
          if i + 1 < j then
            run n (typeList (roles.set (j - 1) (some .closingTypeSuffix)) (j - 1) (i + 1))
          else
            some roles
        run n (typeSuffix roles stop j)
      | none => run n (typeSuffix (roles.set i (some .typeSuffix)) stop (i + 1))
    else
      some roles
  | n + 1, typeList roles stop i =>
    if i < stop then do
      let j := (Word.read profile buf (isListSeparator buf) stop i).2
      let pieceStop := buf.beforeBlanks i j
      let pieceStart := buf.afterBlanks i pieceStop
      let roles ←
        if pieceStart < pieceStop then run n (modifiersAndType roles pieceStart pieceStop)
        else some roles
      run n (typeList roles stop (j + 1))
    else
      some roles
  | n + 1, modifiersAndType roles start stop =>
    let words := modifiersAndLast profile buf roles start stop
    let marked := words.1.foldl (fun r w => r.setRange w.start w.stop (some .modifier)) roles
    match words.2 with
    | some w => run n (type marked w.start w.stop)
    | none => some marked

section

variable {profile buf} {n : Nat} {roles : Roles} {start stop i : Nat}
  (hi : ∀ {c}, depth c < n → run profile buf n c = some (result profile buf c))

include hi

theorem run_type (hn : depth (type roles start stop) ≤ n) :
    run profile buf (n + 1) (type roles start stop) =
      some (result profile buf (type roles start stop)) := by
  simp only [depth] at hn
  have h₁ := Buffer.le_seek (isIdentifier buf) start stop
  have h₂ := le_typeEnds buf stop (Buffer.seek (isIdentifier buf) start stop)
    (Buffer.seek (isIdentifier buf) start stop)
  rw [run, hi (by simp only [depth]; omega), result, result, markType]

theorem run_typeSuffix (hn : depth (typeSuffix roles stop i) ≤ n) :
    run profile buf (n + 1) (typeSuffix roles stop i) =
      some (result profile buf (typeSuffix roles stop i)) := by
  simp only [depth] at hn
  rw [run, result]
  split
  case isFalse h => rw [markTypeSuffix_end _ h]
  case isTrue h =>
    split
    case h_1 j hj =>
      have ⟨hblock, hstop⟩ := Option.filter_eq_some_iff.1 hj
      have hlt := Skip.lt_block? profile buf hblock
      have hle := of_decide_eq_true hstop
      have hnext (r : Roles) : run profile buf n (typeSuffix r stop j) =
          some (markTypeSuffix profile buf r stop j) :=
        hi (by simp only [depth]; omega)
      rw [markTypeSuffix_block _ h hj]
      dsimp only
      split
      case isTrue =>
        rw [hi (by simp only [depth]; omega)]
        exact hnext _
      case isFalse => exact hnext _
    case h_2 hj =>
      rw [markTypeSuffix_other _ h hj]
      exact hi (by simp only [depth]; omega)

theorem run_typeList (hn : depth (typeList roles stop i) ≤ n) :
    run profile buf (n + 1) (typeList roles stop i) =
      some (result profile buf (typeList roles stop i)) := by
  simp only [depth] at hn
  rw [run, result]
  split
  case isFalse h => rw [markTypeList_end _ h]
  case isTrue h =>
    have hle := Word.le_read profile buf (isListSeparator buf) stop i
    have hread := Word.read_le profile buf (isListSeparator buf) (Nat.le_of_lt h)
    rw [markTypeList_piece _ h rfl rfl rfl]
    generalize (Word.read profile buf (isListSeparator buf) stop i).2 = j at *
    have h₁ := buf.le_afterBlanks i (buf.beforeBlanks i j)
    have h₂ := buf.beforeBlanks_le i j
    have hnext (r : Roles) : run profile buf n (typeList r stop (j + 1)) =
        some (markTypeList profile buf r stop (j + 1)) :=
      hi (by simp only [depth]; omega)
    dsimp only
    split
    case isTrue =>
      rw [hi (by simp only [depth]; omega)]
      exact hnext _
    case isFalse => exact hnext _

theorem run_modifiersAndType (hn : depth (modifiersAndType roles start stop) ≤ n) :
    run profile buf (n + 1) (modifiersAndType roles start stop) =
      some (result profile buf (modifiersAndType roles start stop)) := by
  simp only [depth] at hn
  rw [run, result, markModifiersAndType_eq]
  cases hw : (modifiersAndLast profile buf roles start stop).2
  case none => simp only [hw]
  case some w =>
    have h := bounds_of_modifiersAndLast profile buf hw
    simp only [hw]
    exact hi (by simp only [depth]; omega)

end

theorem run_of_depth_lt {n : Nat} {c : Call} (hn : depth c < n) :
    run profile buf n c = some (result profile buf c) := by
  induction n generalizing c
  case zero => exact absurd hn (Nat.not_lt_zero _)
  case succ n hi =>
    cases c
    case type => exact run_type hi (Nat.le_of_lt_succ hn)
    case typeSuffix => exact run_typeSuffix hi (Nat.le_of_lt_succ hn)
    case typeList => exact run_typeList hi (Nat.le_of_lt_succ hn)
    case modifiersAndType => exact run_modifiersAndType hi (Nat.le_of_lt_succ hn)

end Call

structure MarkingEnds : Prop where
  words (halt : Nat → Bool) (limit : Nat) :
    Loop.Ends (Word.readRound profile buf halt limit) (limit - ·.2) (fun s =>
      (s.1 ++ (Word.read profile buf halt limit s.2).1, (Word.read profile buf halt limit s.2).2))
  colon (stop : Nat) :
    Loop.Ends (colonRound profile buf stop) (stop - ·) (hasColon profile buf stop)
  survey (stop : Nat) :
    Loop.Ends (surveyRound profile buf stop) (stop - ·.2)
      (fun s => survey profile buf stop s.1 s.2)
  qualified (stop : Nat) :
    Loop.Ends (qualifiedRound buf stop) (stop - ·) (qualifiedEnd buf stop)
  nameSuffix (stop : Nat) :
    Loop.Ends (nameSuffixRound profile buf stop) (stop - ·.2)
      (fun s => markNameSuffix profile buf s.1 stop s.2)
  type (stop : Nat) :
    Loop.Ends (typeRound buf stop) (stop - ·.2) (fun s => typeEnds buf stop s.1 s.2)
  pointers (start : Nat) : Loop.Ends (pointerRound buf start) id (pointerStart buf start)
  calls (c : Call) (n : Nat) (hn : c.depth < n) :
    Call.run profile buf n c = some (c.result profile buf)

theorem markingEnds : MarkingEnds profile buf where
  words := Word.ends_read profile buf
  colon := ends_hasColon profile buf
  survey := ends_survey profile buf
  qualified := ends_qualifiedEnd buf
  nameSuffix := ends_markNameSuffix profile buf
  type := ends_typeEnds buf
  pointers := ends_pointerStart buf
  calls _ _ hn := Call.run_of_depth_lt _ _ hn

end Prototype

-- No profile and no text makes a skip stand still or leave the text. So the search for a prototype,
-- its normal form, its parameter list, its style and its roles are all found in a bounded number of
-- rounds and nested calls.
theorem every_scan_ends :
    Skip.Progress profile buf ∧ Skip.LoopsEnd profile buf ∧
      Prototype.SearchEnds profile buf ∧ Prototype.MarkingEnds profile buf :=
  ⟨Skip.progress profile buf, Skip.loopsEnd profile buf, Prototype.searchEnds profile buf,
    Prototype.markingEnds profile buf⟩

end SourceDocs

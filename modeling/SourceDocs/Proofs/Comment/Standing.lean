import SourceDocs.Proofs.Comment.Order

namespace SourceDocs.Comment

variable {buf : Buffer} {profile : Profile} {first line m : Nat} {c : Candidate}

def resume (buf : Buffer) (profile : Profile) (line : Nat) : Nat :=
  match read? buf profile line with
  | none => line + 1
  | some r => max r.next (line + 1)

-- A scan that stands on the line `first` comes to stand on this line.
inductive StandsFrom (buf : Buffer) (profile : Profile) : Nat → Nat → Prop
  | refl (first : Nat) : StandsFrom buf profile first first
  | step {first line : Nat} (hl : first ≤ buf.lineCount)
    (h : StandsFrom buf profile (resume buf profile first) line) : StandsFrom buf profile first line

def Stands (buf : Buffer) (profile : Profile) (line : Nat) : Prop :=
  StandsFrom buf profile 1 line ∧ line ≤ buf.lineCount

theorem lt_resume (buf : Buffer) (profile : Profile) (line : Nat) :
    line < resume buf profile line := by
  unfold resume
  split <;> omega

theorem resume_of_read?_none (h : read? buf profile line = none) :
    resume buf profile line = line + 1 := by
  rw [resume, h]

-- A comment takes at least the line on which it is read.
theorem resume_of_read? {r : Reading} (hl : line ≤ buf.lineCount)
    (h : read? buf profile line = some r) : resume buf profile line = r.next := by
  have := (sound_read? hl h).lt_next
  rw [resume, h]
  exact Nat.max_eq_left this

theorem StandsFrom.le (h : StandsFrom buf profile first line) : first ≤ line := by
  induction h
  case refl => exact Nat.le_refl _
  case step ih => exact Nat.le_of_lt ((lt_resume ..).trans_le ih)

theorem StandsFrom.trans (h : StandsFrom buf profile first line)
    (h' : StandsFrom buf profile line m) : StandsFrom buf profile first m := by
  induction h
  case refl => exact h'
  case step hl _ ih => exact .step hl (ih h')

theorem Stands.one_le (h : Stands buf profile line) : 1 ≤ line :=
  h.1.le

theorem Stands.resume (h : Stands buf profile line) (hl : resume buf profile line ≤ buf.lineCount) :
    Stands buf profile (resume buf profile line) :=
  ⟨h.1.trans (.step h.2 (.refl _)), hl⟩

theorem readings_of_le (hl : line ≤ buf.lineCount) :
    readings buf profile line =
      read? buf profile line :: readings buf profile (resume buf profile line) := by
  rw [readings, if_pos hl, Comment.resume]
  cases read? buf profile line <;> rfl

theorem readings_of_lt (hl : buf.lineCount < line) : readings buf profile line = [] := by
  rw [readings, if_neg (Nat.not_le_of_lt hl)]

-- What happens from a line on follows from what happens from the line behind its reading on.
theorem stands_induction {motive : Nat → Prop} (buf : Buffer) (profile : Profile)
    (behind : ∀ line, buf.lineCount < line → motive line)
    (step : ∀ line, line ≤ buf.lineCount → motive (Comment.resume buf profile line) → motive line)
    (line : Nat) : motive line := by
  by_cases hl : line ≤ buf.lineCount
  case pos =>
    exact step line hl (stands_induction buf profile behind step (Comment.resume buf profile line))
  case neg => exact behind line (Nat.lt_of_not_le hl)
termination_by buf.lineCount + 1 - line
decreasing_by
  have := lt_resume buf profile line
  omega

-- No line is left out: a scan stands on it, or on a line from which it resumes behind it.
theorem exists_standsFrom (profile : Profile) (hl : first ≤ line) (hl' : line ≤ buf.lineCount) :
    ∃ m, StandsFrom buf profile first m ∧ m ≤ line ∧ line < resume buf profile m := by
  induction first using stands_induction buf profile
  case behind hlt => omega
  case step first hle ih =>
    by_cases hr : resume buf profile first ≤ line
    case pos =>
      obtain ⟨m, hm, hbounds⟩ := ih hr
      exact ⟨m, .step hle hm, hbounds⟩
    case neg => exact ⟨first, .refl _, hl, Nat.lt_of_not_le hr⟩

theorem exists_stands (profile : Profile) (hl : 1 ≤ line) (hl' : line ≤ buf.lineCount) :
    ∃ m, Stands buf profile m ∧ m ≤ line ∧ line < resume buf profile m := by
  obtain ⟨m, hm, hle, hlt⟩ := exists_standsFrom profile hl hl'
  exact ⟨m, ⟨hm, hle.trans hl'⟩, hle, hlt⟩

theorem mem_documented_readings : c ∈ documented (readings buf profile first) ↔
    ∃ line r, StandsFrom buf profile first line ∧ line ≤ buf.lineCount ∧
      read? buf profile line = some r ∧ c ∈ r.candidate := by
  induction first using stands_induction buf profile
  case behind first hlt =>
    rw [readings_of_lt hlt]
    refine ⟨fun h => by simp [documented] at h, ?_⟩
    rintro ⟨line, r, hs, hl, -⟩
    have := hs.le
    omega
  case step first hle ih =>
    rw [readings_of_le hle, documented_cons, List.mem_append, Option.mem_toList,
      Option.bind_eq_some_iff, ih]
    constructor
    case mp =>
      rintro (⟨r, hr, hc⟩ | ⟨line, r, hs, h⟩)
      case inl => exact ⟨first, r, .refl _, hle, hr, hc⟩
      case inr => exact ⟨line, r, .step hle hs, h⟩
    case mpr =>
      rintro ⟨line, r, hs, hl, hr, hc⟩
      cases hs
      case refl => exact .inl ⟨r, hr, hc⟩
      case step hs => exact .inr ⟨line, r, hs, hl, hr, hc⟩

-- A candidate is read on the line on which it starts.
theorem mem_iff_of_completed {tags : Tags} {signal : Signal} {n : Nat} {cs : List Candidate}
    (h : (scan buf profile tags signal n).outcome = .completed cs) :
    c ∈ cs ↔ Stands buf profile c.startLine ∧
      ∃ r, read? buf profile c.startLine = some r ∧ c ∈ r.candidate := by
  rw [eq_documented_of_completed h, mem_documented_readings]
  constructor
  case mp =>
    rintro ⟨line, r, hs, hl, hr, hc⟩
    obtain rfl := (sound_read? hl hr).start_eq c hc
    exact ⟨⟨hs, hl⟩, r, hr, hc⟩
  case mpr =>
    rintro ⟨⟨hs, hl⟩, r, hr, hc⟩
    exact ⟨_, r, hs, hl, hr, hc⟩

theorem mem_startLine_iff_of_completed {tags : Tags} {signal : Signal} {n : Nat}
    {cs : List Candidate} (h : (scan buf profile tags signal n).outcome = .completed cs)
    (hs : Stands buf profile line) :
    c ∈ cs ∧ c.startLine = line ↔ ∃ r, read? buf profile line = some r ∧ c ∈ r.candidate := by
  rw [mem_iff_of_completed h]
  constructor
  case mp =>
    rintro ⟨⟨-, hread⟩, rfl⟩
    exact hread
  case mpr =>
    rintro ⟨r, hr, hc⟩
    obtain rfl := (sound_read? hs.2 hr).start_eq c hc
    exact ⟨⟨hs, r, hr, hc⟩, rfl⟩

end SourceDocs.Comment

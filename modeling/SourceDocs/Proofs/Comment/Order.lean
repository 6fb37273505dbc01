import Mathlib
import SourceDocs.Comment.Scan
import SourceDocs.Profile.Builtin

namespace SourceDocs.Comment

variable {buf : Buffer} {profile : Profile} {line : Nat}

-- The lines of the text on which a candidate may lie, and the flags that it may have before an
-- entity has been found in it.
structure Candidate.Fits (buf : Buffer) (c : Candidate) : Prop where
  one_le : 1 ≤ c.startLine
  lt : c.startLine < c.endLine
  le : c.endLine ≤ buf.lineCount + 1
  unclaimed : c.claimed = false
  xml : c.javadoc = true → c.xml = true

theorem Candidate.containsLine_iff {c : Candidate} :
    c.containsLine line = true ↔ c.startLine ≤ line ∧ line < c.endLine := by
  simp [Candidate.containsLine]

-- No line lies in two comments, one behind the other.
theorem Candidate.not_containsLine_both {c d : Candidate} (h : c.endLine ≤ d.startLine)
    (line : Nat) : ¬(c.containsLine line = true ∧ d.containsLine line = true) := by
  rw [containsLine_iff, containsLine_iff]
  omega

-- What every reading on `line` looks like: it takes at least this line, and a candidate takes all
-- lines that are read.
structure Reading.Sound (buf : Buffer) (line : Nat) (r : Reading) : Prop where
  lt_next : line < r.next
  next_le : r.next ≤ buf.lineCount + 1
  start_eq : ∀ c ∈ r.candidate, c.startLine = line
  end_eq : ∀ c ∈ r.candidate, c.endLine = r.next
  unclaimed : ∀ c ∈ r.candidate, c.claimed = false
  xml : ∀ c ∈ r.candidate, c.javadoc = true → c.xml = true

namespace Reading.Sound

theorem fits {r : Reading} (h : r.Sound buf line) (hl : 1 ≤ line) {c : Candidate}
    (hc : c ∈ r.candidate) : c.Fits buf where
  one_le := (h.start_eq c hc).symm ▸ hl
  lt := by
    rw [h.start_eq c hc, h.end_eq c hc]
    exact h.lt_next
  le := (h.end_eq c hc).symm ▸ h.next_le
  unclaimed := h.unclaimed c hc
  xml := h.xml c hc

theorem rejected {next : Nat} {spans : List Span} (hlt : line < next)
    (hle : next ≤ buf.lineCount + 1) : Sound buf line ⟨next, none, spans⟩ := by
  constructor <;> simp [hlt, hle]

theorem accepted {next : Nat} {spans : List Span} (hlt : line < next)
    (hle : next ≤ buf.lineCount + 1) : Sound buf line ⟨next, some (.plain line next), spans⟩ := by
  constructor <;> simp [hlt, hle, Candidate.plain]

theorem filter {r : Reading} (h : r.Sound buf line) (p : Candidate → Bool) :
    Sound buf line { r with candidate := r.candidate.filter p } where
  lt_next := h.lt_next
  next_le := h.next_le
  start_eq c hc := h.start_eq c (Option.mem_filter_iff.mp hc).1
  end_eq c hc := h.end_eq c (Option.mem_filter_iff.mp hc).1
  unclaimed c hc := h.unclaimed c (Option.mem_filter_iff.mp hc).1
  xml c hc := h.xml c (Option.mem_filter_iff.mp hc).1

theorem asJavadoc {r : Reading} (h : r.Sound buf line) :
    Sound buf line { r with candidate := r.candidate.map (·.asJavadoc) } := by
  refine ⟨h.lt_next, h.next_le, ?_, ?_, ?_, ?_⟩ <;> rintro _ hc <;>
    obtain ⟨c, hc', rfl⟩ := Option.map_eq_some_iff.mp hc
  · exact h.start_eq c hc'
  · exact h.end_eq c hc'
  · exact h.unclaimed c hc'
  · exact fun _ => rfl

end Reading.Sound

theorem findCloser?_bounds {closer : String} {i : Nat} {p : Nat × Nat}
    (hl : line ≤ buf.lineCount) (h : findCloser? buf closer line i = some p) :
    line ≤ p.1 ∧ p.1 ≤ buf.lineCount := by
  fun_induction findCloser? buf closer line i
  case case1 =>
    cases h
    exact ⟨Nat.le_refl _, hl⟩
  case case2 ih =>
    have := ih (by omega) h
    omega
  case case3 => cases h

theorem sound_readBlock? {symbols : BlockSymbols} {alone : Bool} {r : Reading}
    (hl : line ≤ buf.lineCount) (h : readBlock? buf line symbols alone = some r) :
    r.Sound buf line := by
  obtain ⟨i, -, h⟩ := Option.bind_eq_some_iff.mp h
  split at h
  case h_1 =>
    cases h
    exact .rejected (by omega) (Nat.le_refl _)
  case h_2 last j hcloser =>
    have ⟨hle, hlast⟩ := findCloser?_bounds hl hcloser
    dsimp only at hle hlast h
    split at h <;> cases h
    case isTrue => exact .accepted (by omega) (by omega)
    case isFalse => exact .rejected (by omega) (by omega)

theorem length_symbolRun (buf : Buffer) (symbol : String) (hl : line ≤ buf.lineCount + 1) :
    line + (symbolRun buf symbol line).length ≤ buf.lineCount + 1 := by
  fun_induction symbolRun buf symbol line
  case case1 ih =>
    have := ih (by omega)
    rw [List.length_cons]
    omega
  all_goals exact hl

theorem exists_of_readLines? {first following : String} {alone : Bool}
    {found : Candidate × List Span} (hl : line ≤ buf.lineCount)
    (h : readLines? buf line first following alone = some found) :
    ∃ stop, found.1 = .plain line stop ∧ line < stop ∧ stop ≤ buf.lineCount + 1 := by
  obtain ⟨i, -, h⟩ := Option.bind_eq_some_iff.mp h
  have := length_symbolRun buf following (Nat.succ_le_succ hl)
  cases h
  exact ⟨_, rfl, by omega, by omega⟩

-- A comment of lines may get the flags of Javadoc and of XML in the ways that `chooseReading` has.
theorem sound_ofLines {stop : Nat} {spans : List Span} {c : Candidate} (hlt : line < stop)
    (hle : stop ≤ buf.lineCount + 1)
    (hc : c = .plain line stop ∨ c = (Candidate.plain line stop).asXml ∨
      c = (Candidate.plain line stop).asJavadoc ∨ c = (Candidate.plain line stop).asXml.asJavadoc) :
    (Reading.ofLines c spans).Sound buf line := by
  rcases hc with rfl | rfl | rfl | rfl <;> constructor <;>
    simp [Reading.ofLines, Candidate.plain, Candidate.asXml, Candidate.asJavadoc, hlt, hle]

theorem sound_chooseReading {first following : String} {alone : Bool}
    {xml : Candidate × List Span} (hl : line ≤ buf.lineCount)
    (hxml : readLines? buf line first following alone = some xml) :
    (chooseReading xml (readJavadocLines? buf profile line)).Sound buf line := by
  obtain ⟨stop, hx, hlt, hle⟩ := exists_of_readLines? hl hxml
  cases hj : readJavadocLines? buf profile line
  case none => exact sound_ofLines hlt hle (.inr (.inl (by rw [hx])))
  case some javadoc =>
    obtain ⟨p, -, hread⟩ := List.exists_of_findSome?_eq_some hj
    obtain ⟨stop', hx', hlt', hle'⟩ := exists_of_readLines? hl hread
    -- The Javadoc reading is longer, or there is a single line, or the XML reading counts.
    dsimp only [chooseReading]
    split
    case isTrue => exact sound_ofLines hlt' hle' (.inr (.inr (.inl (by rw [hx']))))
    case isFalse =>
      split
      case isTrue => exact sound_ofLines hlt hle (.inr (.inr (.inl (by rw [hx]))))
      case isFalse => exact sound_ofLines hlt hle (.inr (.inl (by rw [hx])))

-- One case for each style, in the order in which they are tried.
theorem sound_read? {r : Reading} (hl : line ≤ buf.lineCount) (h : read? buf profile line = some r) :
    r.Sound buf line := by
  simp only [read?, Option.or_eq_some_iff, Option.map_eq_some_iff] at h
  rcases h with h | ⟨-, h | ⟨-, h | ⟨-, h | ⟨-, h⟩⟩⟩⟩
  case inl =>
    obtain ⟨s, -, h⟩ := List.exists_of_findSome?_eq_some h
    obtain ⟨r, hread, rfl⟩ := Option.map_eq_some_iff.mp h
    exact (sound_readBlock? hl hread).asJavadoc
  case inr.inl =>
    obtain ⟨s, -, h⟩ := List.exists_of_findSome?_eq_some h
    obtain ⟨r, hread, rfl⟩ := Option.map_eq_some_iff.mp h
    exact (sound_readBlock? hl hread).filter _
  case inr.inr.inl =>
    obtain ⟨xml, hread, rfl⟩ := h
    obtain ⟨s, -, hread⟩ := List.exists_of_findSome?_eq_some hread
    exact sound_chooseReading hl hread
  case inr.inr.inr.inl =>
    obtain ⟨javadoc, hread, rfl⟩ := h
    obtain ⟨p, -, hread⟩ := List.exists_of_findSome?_eq_some hread
    obtain ⟨stop, hx, hlt, hle⟩ := exists_of_readLines? hl hread
    exact sound_ofLines hlt hle (.inr (.inr (.inl (by rw [hx]))))
  case inr.inr.inr.inr =>
    obtain ⟨plain, hread, rfl⟩ := h
    obtain ⟨s, -, hread⟩ := List.exists_of_findSome?_eq_some hread
    obtain ⟨stop, hx, hlt, hle⟩ := exists_of_readLines? hl hread
    exact sound_ofLines hlt hle (.inl hx)

-- The candidates among the readings.
def documented (rs : List (Option Reading)) : List Candidate :=
  rs.flatMap fun r => (r.bind (·.candidate)).toList

theorem documented_cons (r : Option Reading) (rs : List (Option Reading)) :
    documented (r :: rs) = (r.bind (·.candidate)).toList ++ documented rs :=
  List.flatMap_cons

-- What is read from a line on lies behind the lines before it, and in the order of the lines.
theorem ordered_readings (buf : Buffer) (profile : Profile) (hl : 1 ≤ line) :
    (∀ c ∈ documented (readings buf profile line), c.Fits buf ∧ line ≤ c.startLine) ∧
      (documented (readings buf profile line)).Pairwise (·.endLine ≤ ·.startLine) := by
  fun_induction readings buf profile line
  case case1 line hle hr ih =>
    have ⟨hfits, hpairs⟩ := ih (by omega)
    refine ⟨fun c hc => ?_, hpairs⟩
    have ⟨hc, hstart⟩ := hfits c hc
    exact ⟨hc, by omega⟩
  case case2 line hle r hr ih =>
    have hsound := sound_read? hle hr
    -- A reading takes a line at least, so the next one starts where it ends.
    have hnext : max r.next (line + 1) = r.next := by
      have := hsound.lt_next
      omega
    have hlt := hsound.lt_next
    rw [hnext] at ih ⊢
    have ⟨hfits, hpairs⟩ := ih (by omega)
    rw [documented_cons]
    refine ⟨fun c hc => ?fits, List.pairwise_append.mpr ⟨?single, hpairs, fun c hc d hd => ?before⟩⟩
    case fits =>
      rcases List.mem_append.mp hc with hc | hc
      case inl =>
        have hc := Option.mem_toList.mp hc
        exact ⟨hsound.fits hl hc, Nat.le_of_eq (hsound.start_eq c hc).symm⟩
      case inr =>
        have ⟨hc, hstart⟩ := hfits c hc
        exact ⟨hc, by omega⟩
    case single => cases r.candidate <;> simp
    case before =>
      rw [hsound.end_eq c (Option.mem_toList.mp hc)]
      exact (hfits d hd).2
  case case3 => simp [documented]

-- A scan that is not stopped gives the candidates among the readings, and only those.
theorem outcome_scanReadings {signal : Signal} {tags : Tags} {n : Nat}
    (rs : List (Option Reading)) :
    (scanReadings buf signal tags n rs).outcome = .completed (documented rs) ∨
      (scanReadings buf signal tags n rs).outcome = .cancelled := by
  induction rs generalizing tags n
  case nil => exact .inl rfl
  case cons r rs hi =>
    by_cases hs : signal n = true
    case pos => exact .inr (by cases r <;> simp [scanReadings, hs])
    case neg =>
      cases r
      case none =>
        simp only [scanReadings, if_neg hs]
        exact hi
      case some r =>
        simp only [scanReadings, if_neg hs]
        rcases @hi (r.tag buf tags) (n + 1) with h | h
        case inl => exact .inl (by simp [h, Outcome.map, documented_cons])
        case inr => exact .inr (by simp [h, Outcome.map])

theorem outcome_scanReadings_never {tags : Tags} {n : Nat} {rs : List (Option Reading)} :
    (scanReadings buf .never tags n rs).outcome = .completed (documented rs) := by
  induction rs generalizing tags n
  case nil => rfl
  case cons r rs hi =>
    cases r
    case none =>
      simp only [scanReadings, Signal.never]
      exact hi
    case some r => simp [scanReadings, hi, Signal.never, Outcome.map, documented_cons]

-- All that completes gives the candidates among the readings, which know of no tags.
theorem eq_documented_of_completed {tags : Tags} {signal : Signal} {n : Nat} {cs : List Candidate}
    (h : (scan buf profile tags signal n).outcome = .completed cs) :
    cs = documented (readings buf profile 1) := by
  rcases outcome_scanReadings (readings buf profile 1) with h' | h'
  case inl => exact (Outcome.completed.inj (h'.symm.trans h)).symm
  case inr => cases h'.symm.trans h

theorem ordered_of_completed {tags : Tags} {signal : Signal} {n : Nat} {cs : List Candidate}
    (h : (scan buf profile tags signal n).outcome = .completed cs) :
    (∀ c ∈ cs, c.Fits buf) ∧ cs.Pairwise (·.endLine ≤ ·.startLine) := by
  have ⟨hfits, hpairs⟩ := ordered_readings buf profile (Nat.le_refl 1)
  rw [eq_documented_of_completed h]
  exact ⟨fun c hc => (hfits c hc).1, hpairs⟩

-- The candidates of a scan that completes lie on lines of the text, in their order and without a
-- common line. They are those of every other scan that completes, over whatever tags and under
-- whatever signal, and of every scan that is never stopped.
theorem scan_candidates (buf : Buffer) (profile : Profile) {tags : Tags} {signal : Signal} {n : Nat}
    {cs : List Candidate} (h : (scan buf profile tags signal n).outcome = .completed cs) :
    (∀ c ∈ cs, c.Fits buf) ∧ cs.Pairwise (·.endLine ≤ ·.startLine) ∧
      (∀ tags' signal' n' cs',
        (scan buf profile tags' signal' n').outcome = .completed cs' → cs' = cs) ∧
      ∀ tags' n', (scan buf profile tags' .never n').outcome = .completed cs := by
  have ⟨hfits, hpairs⟩ := ordered_of_completed h
  obtain rfl := eq_documented_of_completed h
  exact ⟨hfits, hpairs, fun _ _ _ _ => eq_documented_of_completed,
    fun _ _ => outcome_scanReadings_never⟩

-- A Javadoc block, code, and a comment of two lines; the last poll before the end lets the scan pass.
theorem scan_candidates_two :
    let profile := Profile.builtinC.prepared
    let buf := Buffer.ofString "/** A */\nint a;\n// B\n// C\n"
    let cs : List Candidate := [⟨1, 2, true, true, false⟩, ⟨3, 5, false, false, false⟩]
    (scan buf profile (.empty buf) (.after 4) 0).outcome = .completed cs ∧
      (∀ c ∈ cs, c.Fits buf) ∧ cs.Pairwise (·.endLine ≤ ·.startLine) ∧
      (scan buf profile ⟨#[some .decoration]⟩ .never 7).outcome = .completed cs := by
  intro profile buf cs
  have h : (scan buf profile (.empty buf) (.after 4) 0).outcome = .completed cs := by
    decide +kernel
  have ⟨hfits, hpairs, _, hnever⟩ := scan_candidates buf profile h
  exact ⟨h, hfits, hpairs, hnever _ _⟩

end SourceDocs.Comment

import SourceDocs.Proofs.Comment.Block
import SourceDocs.Proofs.Comment.Standing
import SourceDocs.Proofs.Headers

namespace SourceDocs.Comment

variable {buf : Buffer} {profile : Profile} {line : Nat} {symbol : String}

def begins (buf : Buffer) (line : Nat) (symbol : String) : Bool :=
  buf.matchesAt (lineFirst buf line) symbol

def beginsAlone (buf : Buffer) (line : Nat) (symbol : String) : Bool :=
  (buf.skip? (lineFirst buf line) symbol false).any (!buf.isSymbol ·)

theorem isSome_skip?_lineFirst : (buf.skip? (lineFirst buf line) symbol false).isSome =
    begins buf line symbol := by
  simp [Buffer.skip?, begins, Buffer.matchesAt]

theorem isSome_afterSymbol?_false :
    (afterSymbol? buf line symbol false).isSome = begins buf line symbol := by
  simp [afterSymbol?, isSome_skip?_lineFirst]

theorem isSome_afterSymbol?_true :
    (afterSymbol? buf line symbol true).isSome = beginsAlone buf line symbol := by
  unfold afterSymbol? beginsAlone
  cases buf.skip? (lineFirst buf line) symbol false <;> simp

theorem readBlock?_false_eq_none_iff {s : BlockSymbols} :
    readBlock? buf line s false = none ↔ begins buf line s.opener = false := by
  rw [← isSome_afterSymbol?_false, ← isSome_readBlock?_eq, Option.isSome_eq_false_iff,
    Option.isNone_iff_eq_none]

theorem readBlock?_true_eq_none_iff {s : BlockSymbols} :
    readBlock? buf line s true = none ↔ beginsAlone buf line s.opener = false := by
  rw [← isSome_afterSymbol?_true, ← isSome_readBlock?_eq, Option.isSome_eq_false_iff,
    Option.isNone_iff_eq_none]

def startsBlock (buf : Buffer) (profile : Profile) (line : Nat) : Bool :=
  profile.javadocBlockComments.any (beginsAlone buf line ·.opener) ||
    profile.blockComments.any (begins buf line ·.opener)

def runStop (buf : Buffer) (symbol : String) (line : Nat) : Nat :=
  Buffer.seek (!begins buf · symbol) line (buf.lineCount + 1)

theorem begins_of_lt_runStop {m : Nat} (hm : line ≤ m) (h : m < runStop buf symbol line) :
    begins buf m symbol = true := by
  simpa using Buffer.not_of_lt_seek hm h

theorem runStop_maximal (hl : line ≤ buf.lineCount + 1) :
    runStop buf symbol line = buf.lineCount + 1 ∨
      begins buf (runStop buf symbol line) symbol = false := by
  have hle : runStop buf symbol line ≤ buf.lineCount + 1 := Buffer.seek_le _ hl
  rcases Nat.lt_or_eq_of_le hle with hlt | heq
  case inl =>
    have hstop : (!begins buf (runStop buf symbol line) symbol) = true := Buffer.of_seek_lt hlt
    exact .inr (by simpa using hstop)
  case inr => exact .inl heq

theorem length_symbolRun_eq (buf : Buffer) (symbol : String) (line : Nat) :
    line + (symbolRun buf symbol line).length = runStop buf symbol line := by
  fun_induction symbolRun buf symbol line
  case case1 line hl i hi ih =>
    have hbegins : begins buf line symbol = true := by
      rw [← isSome_skip?_lineFirst, hi, Option.isSome_some]
    rw [List.length_cons, runStop, Buffer.seek_miss (by omega) (by simp [hbegins]), ← runStop, ← ih]
    omega
  case case2 line hl hn =>
    have hbegins : begins buf line symbol = false := by
      rw [← isSome_skip?_lineFirst, hn, Option.isSome_none]
    rw [runStop, Buffer.seek_hit (by omega) (by simp [hbegins])]
    rfl
  case case3 hl =>
    rw [runStop, Buffer.seek_end (by omega)]
    rfl

-- The line behind a comment that begins on `line` with a pair of symbols.
def pairStop (buf : Buffer) (line : Nat) (p : LinePair) : Nat :=
  runStop buf p.following (line + 1)

theorem readLines?_candidate (buf : Buffer) (line : Nat) (p : LinePair) (alone : Bool) :
    (readLines? buf line p.first p.following alone).map (·.1) =
      (afterSymbol? buf line p.first alone).map fun _ => .plain line (pairStop buf line p) := by
  unfold readLines?
  cases afterSymbol? buf line p.first alone
  case none => rfl
  case some => simp [pairStop, length_symbolRun_eq]

theorem isSome_readLines? {p : LinePair} (alone : Bool) :
    (readLines? buf line p.first p.following alone).isSome =
      (afterSymbol? buf line p.first alone).isSome := by
  rw [← Option.isSome_map (f := (·.1)), readLines?_candidate, Option.isSome_map]

def xmlPair? (buf : Buffer) (profile : Profile) (line : Nat) : Option LinePair :=
  (profile.xmlLineComments.find? (beginsAlone buf line ·)).map fun s => ⟨s, s⟩

def javadocPair? (buf : Buffer) (profile : Profile) (line : Nat) : Option LinePair :=
  profile.javadocLineComments.find? (beginsAlone buf line ·.first)

def plainPair? (buf : Buffer) (profile : Profile) (line : Nat) : Option LinePair :=
  (profile.lineComments.find? (begins buf line ·)).map fun s => ⟨s, s⟩

-- The symbols of the reading that counts on a line that starts no block comment: of an XML and a
-- Javadoc reading the longer one.
def chosenPair? (buf : Buffer) (profile : Profile) (line : Nat) : Option LinePair :=
  match xmlPair? buf profile line, javadocPair? buf profile line with
  | some x, some j => some (if pairStop buf line x < pairStop buf line j then j else x)
  | some x, none => some x
  | none, some j => some j
  | none, none => plainPair? buf profile line

-- Of some pairs of symbols, the first that can be read gives the comment.
theorem findSome?_readLines? {α : Type} {f : α → LinePair} {alone : Bool} {p : α → Bool}
    (hp : ∀ x, (afterSymbol? buf line (f x).first alone).isSome = p x) (xs : List α) :
    (xs.findSome? fun x => readLines? buf line (f x).first (f x).following alone).map (·.1) =
      (xs.find? p).map fun x => .plain line (pairStop buf line (f x)) := by
  rw [findSome?_eq_bind fun x _ => (isSome_readLines? alone).trans (hp x)]
  cases hfind : xs.find? p
  case none => rfl
  case some x =>
    obtain ⟨i, hi⟩ := Option.isSome_iff_exists.mp ((hp x).trans (List.find?_some hfind))
    rw [Option.bind_some, readLines?_candidate, hi]
    rfl

theorem xml_candidate (buf : Buffer) (profile : Profile) (line : Nat) :
    (profile.xmlLineComments.findSome? fun s => readLines? buf line s s true).map (·.1) =
      (xmlPair? buf profile line).map fun p => .plain line (pairStop buf line p) := by
  rw [findSome?_readLines? (f := fun s => ⟨s, s⟩) (fun _ => isSome_afterSymbol?_true), xmlPair?,
    Option.map_map]
  rfl

theorem javadoc_candidate (buf : Buffer) (profile : Profile) (line : Nat) :
    (readJavadocLines? buf profile line).map (·.1) =
      (javadocPair? buf profile line).map fun p => .plain line (pairStop buf line p) :=
  findSome?_readLines? (f := fun p => p) (fun _ => isSome_afterSymbol?_true) _

theorem plain_candidate (buf : Buffer) (profile : Profile) (line : Nat) :
    (profile.lineComments.findSome? fun s => readLines? buf line s s false).map (·.1) =
      (plainPair? buf profile line).map fun p => .plain line (pairStop buf line p) := by
  rw [findSome?_readLines? (f := fun s => ⟨s, s⟩) (fun _ => isSome_afterSymbol?_false), plainPair?,
    Option.map_map]
  rfl

def lineCandidate? (buf : Buffer) (profile : Profile) (line : Nat) : Option Candidate :=
  match xmlPair? buf profile line, javadocPair? buf profile line with
  | some x, some j =>
    let xmlStop := pairStop buf line x
    let javadocStop := pairStop buf line j
    some { Candidate.plain line (max xmlStop javadocStop) with
      xml := true
      javadoc := xmlStop < javadocStop || (xmlStop = line + 1 && javadocStop = line + 1) }
  | some x, none => some (Candidate.plain line (pairStop buf line x)).asXml
  | none, some j => some (Candidate.plain line (pairStop buf line j)).asJavadoc
  | none, none => (plainPair? buf profile line).map fun p => .plain line (pairStop buf line p)

theorem candidate_chooseReading {xml javadoc : Candidate × List Span} {xmlStop javadocStop : Nat}
    (hx : xml.1 = .plain line xmlStop) (hj : javadoc.1 = .plain line javadocStop) :
    (chooseReading xml (some javadoc)).candidate =
      some { Candidate.plain line (max xmlStop javadocStop) with
        xml := true
        javadoc := xmlStop < javadocStop || (xmlStop = line + 1 && javadocStop = line + 1) } := by
  have hend (stop : Nat) : (Candidate.plain line stop).endLine = stop := rfl
  have hone : (Candidate.plain line xmlStop).lineCount = 1 ↔ xmlStop = line + 1 := by
    simp only [Candidate.lineCount, Candidate.plain]
    omega
  simp only [chooseReading, Reading.ofLines, hx, hj, hend, hone, Option.some.injEq]
  rcases Nat.lt_trichotomy xmlStop javadocStop with h | h | h
  case inl =>
    rw [if_pos h, Nat.max_eq_right (Nat.le_of_lt h)]
    simp [Candidate.asJavadoc, Candidate.plain, h]
  case inr.inl =>
    subst h
    rw [if_neg (Nat.lt_irrefl _), Nat.max_self]
    by_cases hstop : xmlStop = line + 1
    case pos => simp [Candidate.asJavadoc, Candidate.plain, hstop]
    case neg => simp [Candidate.asXml, Candidate.plain, hstop]
  case inr.inr =>
    have hne : ¬(xmlStop = line + 1 ∧ javadocStop = line + 1) := by omega
    rw [if_neg (Nat.not_lt_of_gt h), if_neg (by omega), Nat.max_eq_left (Nat.le_of_lt h)]
    simpa [Candidate.asXml, Candidate.plain, Nat.le_of_lt h] using hne

-- Where no block comment starts, the reading is that of the first style of lines that begins there.
theorem candidate_read? (hn : startsBlock buf profile line = false) :
    (read? buf profile line).map (·.candidate) = (lineCandidate? buf profile line).map some := by
  rw [startsBlock, Bool.or_eq_false_iff, List.any_eq_false, List.any_eq_false] at hn
  have hjavadocBlock : (profile.javadocBlockComments.findSome? fun s =>
      (readBlock? buf line s true).map fun r =>
        { r with candidate := r.candidate.map Candidate.asJavadoc }) = none := by
    rw [List.findSome?_eq_none_iff]
    intro s hs
    rw [Option.map_eq_none_iff, readBlock?_true_eq_none_iff]
    simpa using hn.1 s hs
  have hblock : (profile.blockComments.findSome? fun s =>
      (readBlock? buf line s false).map fun r =>
        { r with candidate := r.candidate.filter (!isCheckerNote buf s ·) }) = none := by
    rw [List.findSome?_eq_none_iff]
    intro s hs
    rw [Option.map_eq_none_iff, readBlock?_false_eq_none_iff]
    simpa using hn.2 s hs
  have hxml := xml_candidate buf profile line
  have hjavadoc := javadoc_candidate buf profile line
  have hplain := plain_candidate buf profile line
  rw [read?, hjavadocBlock, hblock, Option.none_or, Option.none_or, lineCandidate?]
  cases hx : xmlPair? buf profile line
  case some x =>
    rw [hx, Option.map_some, Option.map_eq_some_iff] at hxml
    obtain ⟨xml, hread, hxml⟩ := hxml
    rw [hread, Option.map_some, Option.some_or, Option.map_some]
    cases hj : javadocPair? buf profile line
    case none =>
      rw [hj, Option.map_none, Option.map_eq_none_iff] at hjavadoc
      rw [hjavadoc, Option.map_some, ← hxml]
      rfl
    case some j =>
      rw [hj, Option.map_some, Option.map_eq_some_iff] at hjavadoc
      obtain ⟨javadoc, hread', hjavadoc⟩ := hjavadoc
      rw [hread', candidate_chooseReading hxml hjavadoc, Option.map_some]
  case none =>
    rw [hx, Option.map_none, Option.map_eq_none_iff] at hxml
    rw [hxml, Option.map_none, Option.none_or]
    cases hj : javadocPair? buf profile line
    case some j =>
      rw [hj, Option.map_some, Option.map_eq_some_iff] at hjavadoc
      obtain ⟨javadoc, hread, hjavadoc⟩ := hjavadoc
      rw [hread, Option.map_some, Option.some_or, Option.map_some, Option.map_some, ← hjavadoc]
      rfl
    case none =>
      rw [hj, Option.map_none, Option.map_eq_none_iff] at hjavadoc
      rw [hjavadoc, Option.map_none, Option.none_or, Option.map_map, ← hplain, Option.map_map]
      rfl

theorem exists_of_lineCandidate? {c : Candidate} (h : lineCandidate? buf profile line = some c) :
    ∃ p, chosenPair? buf profile line = some p ∧ c.endLine = pairStop buf line p := by
  unfold lineCandidate? at h
  unfold chosenPair?
  split at h
  case h_1 x j _ _ =>
    cases h
    refine ⟨_, rfl, ?_⟩
    split
    case isTrue hlt => exact Nat.max_eq_right (Nat.le_of_lt hlt)
    case isFalse hle => exact Nat.max_eq_left (Nat.le_of_not_lt hle)
  case h_2 x _ _ =>
    cases h
    exact ⟨x, rfl, rfl⟩
  case h_3 j _ _ =>
    cases h
    exact ⟨j, rfl, rfl⟩
  case h_4 =>
    obtain ⟨p, hp, rfl⟩ := Option.map_eq_some_iff.mp h
    exact ⟨p, hp, rfl⟩

theorem isSome_lineCandidate? (h : ∃ s ∈ profile.lineComments, begins buf line s = true) :
    (lineCandidate? buf profile line).isSome = true := by
  unfold lineCandidate?
  split
  case h_4 => simpa [plainPair?] using h
  all_goals rfl

theorem exists_lineCandidate?_of_both {x j : LinePair} (hx : xmlPair? buf profile line = some x)
    (hj : javadocPair? buf profile line = some j) :
    ∃ c, lineCandidate? buf profile line = some c ∧
      c.endLine = max (pairStop buf line x) (pairStop buf line j) ∧ c.xml = true ∧
      (c.javadoc = true ↔ pairStop buf line x < pairStop buf line j ∨
        pairStop buf line x = line + 1 ∧ pairStop buf line j = line + 1) := by
  unfold lineCandidate?
  rw [hx, hj]
  exact ⟨_, rfl, rfl, rfl, by simp⟩

section

variable {tags : Tags} {signal : Signal} {n : Nat} {cs : List Candidate} {c : Candidate}

-- On a line that starts no block comment the scan reports the comment of lines, if there is one.
theorem mem_iff_of_not_startsBlock
    (h : (scan buf profile tags signal n).outcome = .completed cs)
    (hs : Stands buf profile line) (hn : startsBlock buf profile line = false) :
    c ∈ cs ∧ c.startLine = line ↔ lineCandidate? buf profile line = some c := by
  have hread := candidate_read? hn
  rw [mem_startLine_iff_of_completed h hs]
  constructor
  case mp =>
    rintro ⟨r, hr, hc⟩
    rw [hr, Option.map_some, Option.mem_def.mp hc] at hread
    obtain ⟨c', hc', heq⟩ := Option.map_eq_some_iff.mp hread.symm
    rw [hc', Option.some.inj heq]
  case mpr =>
    intro hc
    rw [hc, Option.map_some, Option.map_eq_some_iff] at hread
    exact hread

-- Every line that begins with the symbol of a line comment is in a block comment or in exactly one
-- candidate. None ends before a line that continues it, and where a line can be read as XML and as
-- Javadoc, the longer of the two readings counts.
theorem line_comments_whole (buf : Buffer) (profile : Profile)
    (h : (scan buf profile tags signal n).outcome = .completed cs) :
    (∀ line, 1 ≤ line → line ≤ buf.lineCount →
      (∃ s ∈ profile.lineComments, begins buf line s = true) →
      (∃ start, Stands buf profile start ∧ startsBlock buf profile start = true ∧
          start ≤ line ∧ line < resume buf profile start) ∨
        cs.countP (·.containsLine line) = 1) ∧
    (∀ c ∈ cs, startsBlock buf profile c.startLine = false →
      ∃ p, chosenPair? buf profile c.startLine = some p ∧
        (∀ line, c.startLine < line → line < c.endLine → begins buf line p.following = true) ∧
        (c.endLine = buf.lineCount + 1 ∨ begins buf c.endLine p.following = false)) ∧
    (∀ line x j, Stands buf profile line → startsBlock buf profile line = false →
      xmlPair? buf profile line = some x → javadocPair? buf profile line = some j →
      ∃ c ∈ cs, c.startLine = line ∧
        c.endLine = max (pairStop buf line x) (pairStop buf line j) ∧ c.xml = true ∧
        (c.javadoc = true ↔ pairStop buf line x < pairStop buf line j ∨
          pairStop buf line x = line + 1 ∧ pairStop buf line j = line + 1)) := by
  refine ⟨fun line hl hl' hsymbol => ?covered, fun c hc hn => ?maximal,
    fun line x j hs hn hx hj => ?longer⟩
  case covered =>
    obtain ⟨start, hstands, hle, hlt⟩ := exists_stands profile hl hl'
    cases hblock : startsBlock buf profile start
    case true => exact .inl ⟨start, hstands, hblock, hle, hlt⟩
    case false =>
      have hread := candidate_read? hblock
      cases hr : read? buf profile start
      case none =>
        -- The scan stands on the line itself, and there is something to read.
        rw [resume_of_read?_none hr] at hlt
        obtain rfl : start = line := by omega
        obtain ⟨c, hc⟩ := Option.isSome_iff_exists.mp (isSome_lineCandidate? hsymbol)
        simp [hr, hc] at hread
      case some r =>
        rw [resume_of_read? hstands.2 hr] at hlt
        have hsound := sound_read? hstands.2 hr
        rw [hr, Option.map_some] at hread
        obtain ⟨c, hc, hcandidate⟩ := Option.map_eq_some_iff.mp hread.symm
        obtain ⟨hmem, hstart⟩ := (mem_iff_of_not_startsBlock h hstands hblock).mpr hc
        refine .inr (Header.countP_containsLine (ordered_of_completed h).2 hmem ?_)
        rw [Candidate.containsLine_iff, hstart, hsound.end_eq c hcandidate.symm]
        exact ⟨hle, hlt⟩
  case maximal =>
    have hstands := ((mem_iff_of_completed h).mp hc).1
    have hline := (mem_iff_of_not_startsBlock h hstands hn).mp ⟨hc, rfl⟩
    obtain ⟨p, hp, hstop⟩ := exists_of_lineCandidate? hline
    refine ⟨p, hp, fun line hl hl' => begins_of_lt_runStop hl (hl'.trans_eq hstop), ?_⟩
    rw [hstop]
    exact runStop_maximal (Nat.succ_le_succ hstands.2)
  case longer =>
    obtain ⟨c, hline, hc⟩ := exists_lineCandidate?_of_both hx hj
    obtain ⟨hmem, hstart⟩ := (mem_iff_of_not_startsBlock h hs hn).mpr hline
    exact ⟨c, hmem, hstart, hc⟩

-- A comment that is longer as Javadoc, and a line comment in a block comment that is no candidate.
theorem line_comments_whole_javadoc :
    let profile := { Profile.plain with
      lineComments := ["#"], blockComments := [⟨"(*", "*)"⟩]
      xmlLineComments := ["##"], javadocLineComments := [⟨"##", "#"⟩] }
    let buf := Buffer.ofChars "## A\n# B\n(*\n# C *) x\n# D".toList
    let cs : List Candidate := [⟨1, 3, true, true, false⟩, ⟨5, 6, false, false, false⟩]
    (scan buf profile (.empty buf) .never 0).outcome = .completed cs ∧
      begins buf 4 "#" = true ∧ cs.countP (·.containsLine 4) = 0 ∧
      (∃ start, Stands buf profile start ∧ startsBlock buf profile start = true ∧
        start ≤ 4 ∧ 4 < resume buf profile start) ∧
      (∃ p, chosenPair? buf profile 1 = some p ∧ begins buf 2 p.following = true ∧
        (3 = buf.lineCount + 1 ∨ begins buf 3 p.following = false)) ∧
      ∃ c ∈ cs, c.startLine = 1 ∧
        c.endLine = max (pairStop buf 1 ⟨"##", "##"⟩) (pairStop buf 1 ⟨"##", "#"⟩) ∧
        c.javadoc = true := by
  intro profile buf cs
  have h : (scan buf profile (.empty buf) .never 0).outcome = .completed cs := by decide +kernel
  have hbegins : begins buf 4 "#" = true := by decide +kernel
  have hcount : cs.countP (·.containsLine 4) = 0 := by decide
  obtain ⟨hcovered, hmaximal, hlonger⟩ := line_comments_whole buf profile h
  have hblock := hcovered 4 (by decide) (by decide +kernel) ⟨"#", .head _, hbegins⟩
  obtain ⟨p, hp, hrun, hstop⟩ := hmaximal _ (.head _) (by decide +kernel)
  obtain ⟨c, hc, hstart, hend, -, hjavadoc⟩ := hlonger 1 ⟨"##", "##"⟩ ⟨"##", "#"⟩
    ⟨.refl 1, by decide +kernel⟩ (by decide +kernel) (by decide +kernel) (by decide +kernel)
  refine ⟨h, hbegins, hcount, hblock.resolve_right (by simp [hcount]),
    ⟨p, hp, hrun 2 (by decide) (by decide), hstop⟩, c, hc, hstart, hend, hjavadoc.mpr ?_⟩
  exact .inl (by decide +kernel)

end

end SourceDocs.Comment

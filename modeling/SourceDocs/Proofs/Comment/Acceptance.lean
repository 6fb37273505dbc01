import SourceDocs.Proofs.Comment.LineRun
import SourceDocs.Proofs.OneLine.Read

namespace SourceDocs

open Token (Kind)

namespace Text

theorem isSpace_iff {c : Char} : isSpace c = true ↔ Kind.ofChar c = .blank := by
  constructor
  case mp =>
    intro h
    simp only [isSpace, Bool.or_eq_true, beq_iff_eq] at h
    rcases h with rfl | rfl <;> decide
  case mpr =>
    unfold Kind.ofChar
    intro h
    split at h
    case isTrue => cases h
    case isFalse =>
      split at h
      case isTrue hc => exact hc
      case isFalse => split at h <;> cases h

end Text

namespace Buffer

variable {buf : Buffer} {i j : Nat} {c : Char}

namespace WellFormed

variable (hb : buf.WellFormed)

include hb

theorem isBlank_eq (hc : c ∈ buf.chars i) : buf.isBlank i = Text.isSpace c := by
  rw [Bool.eq_iff_iff, Text.isSpace_iff, isBlank, hb.kind?_of_mem hc]
  simp

theorem isChar_of_mem (hs : Kind.ofChar c = .symbol) (hc : c ∈ buf.chars i) :
    buf.isChar i c = true := by
  have hkind := hb.kind?_of_mem hc
  obtain ⟨t, ht, hk⟩ := Option.map_eq_some_iff.mp hkind
  have hw := hb.token ht
  rw [hs] at hk
  simp only [Token.WellFormed, hk] at hw
  obtain ⟨d, -, hd⟩ := hw
  obtain rfl : c = d := by simpa [chars, ht, hd] using hc
  exact isChar_iff.mpr ⟨t, ht, hk, by simp [hd]⟩

theorem chars_eq (h : buf.isChar i c = true) : buf.chars i = [c] := by
  obtain ⟨t, ht, hc⟩ := hb.chars_of_isChar h
  rw [chars, ht, Option.map_some, Option.getD_some, hc]

theorem isSpace_slice_iff (hj : j ≤ buf.size) : (∀ c ∈ buf.slice i j, Text.isSpace c = true) ↔
    ∀ k, i ≤ k → k < j → buf.isBlank k = true := by
  induction hn : j - i generalizing i
  case zero =>
    rw [slice_of_le (by omega)]
    exact ⟨fun _ k hk hk' => by omega, fun _ c hc => by cases hc⟩
  case succ n ih =>
    obtain ⟨t, ht⟩ := exists_token (show i < buf.size by omega)
    obtain ⟨d, w, hd, -⟩ := (hb.token ht).ofChar_head
    have hchars : buf.chars i = t.chars := by simp [chars, ht]
    have hfirst : (∀ c ∈ t.chars, Text.isSpace c = true) ↔ buf.isBlank i = true := by
      constructor
      case mp =>
        intro h
        rw [hb.isBlank_eq (c := d) (by simp [hchars, hd]), h d (by simp [hd])]
      case mpr => exact fun h c hc => by rw [← hb.isBlank_eq (hchars ▸ hc), h]
    have hslice : buf.slice i j = t.chars ++ buf.slice (i + 1) j := slice_cons (by omega) ht
    simp only [hslice, List.forall_mem_append, hfirst, ih (show j - (i + 1) = n by omega)]
    constructor
    case mp =>
      rintro ⟨h, hrest⟩ k hk hk'
      rcases Nat.lt_or_eq_of_le hk with hlt | rfl
      case inl => exact hrest k hlt hk'
      case inr => exact h
    case mpr =>
      exact fun h => ⟨h i (Nat.le_refl _) (by omega), fun k hk hk' => h k (by omega) hk'⟩

theorem head?_slice_eq_iff (hs : Kind.ofChar c = .symbol) (hj : j ≤ buf.size) :
    (buf.slice i j).head? = some c ↔ i < j ∧ buf.isChar i c = true := by
  rcases Nat.lt_or_ge i j with hlt | hge
  case inl =>
    rw [hb.head?_slice hlt hj, and_iff_right hlt]
    exact ⟨fun h => hb.isChar_of_mem hs (List.mem_of_mem_head? h), fun h => by simp [hb.chars_eq h]⟩
  case inr => simp [slice_of_le hge, Nat.not_lt_of_le hge]

theorem getLast?_slice_eq_iff (hs : Kind.ofChar c = .symbol) (hj : j ≤ buf.size) :
    (buf.slice i j).getLast? = some c ↔ i < j ∧ buf.isChar (j - 1) c = true := by
  rcases Nat.lt_or_ge i j with hlt | hge
  case inl =>
    rw [hb.getLast?_slice hlt hj, and_iff_right hlt]
    exact ⟨fun h => hb.isChar_of_mem hs (List.mem_of_getLast? h), fun h => by simp [hb.chars_eq h]⟩
  case inr => simp [slice_of_le hge, Nat.not_lt_of_le hge]

-- The spaces and tabs around a text are the blanks at its ends.
theorem inner_slice (hij : i ≤ j) (hj : j ≤ buf.size) : Prototype.inner (buf.slice i j) =
    buf.slice (buf.afterBlanks i j) (buf.beforeBlanks (buf.afterBlanks i j) j) := by
  have hfirst := buf.le_afterBlanks i j
  have hfirst' := buf.afterBlanks_le hij
  have hbefore (k : Nat) (hk : i ≤ k) (hk' : k < buf.afterBlanks i j) : buf.isBlank k = true :=
    isBlank_of_lt_afterBlanks hk hk'
  have hhead (h : buf.afterBlanks i j < j) : buf.isBlank (buf.afterBlanks i j) = false :=
    not_isBlank_afterBlanks h
  generalize buf.afterBlanks i j = first at *
  have hstop := buf.le_beforeBlanks hfirst'
  have hstop' := buf.beforeBlanks_le first j
  have hafter (k : Nat) (hk : buf.beforeBlanks first j ≤ k) (hk' : k < j) : buf.isBlank k = true :=
    of_retreat_le hk hk'
  have hlast (h : first < buf.beforeBlanks first j) :
      buf.isBlank (buf.beforeBlanks first j - 1) = false := not_of_lt_retreat h
  generalize buf.beforeBlanks first j = stop at *
  have hparts : buf.slice i j = buf.slice i first ++ buf.slice first stop ++ buf.slice stop j := by
    rw [slice_append_slice hfirst hstop, slice_append_slice (by omega) hstop']
  rw [hparts]
  refine Prototype.inner_eq ((hb.isSpace_slice_iff (by omega)).mpr hbefore)
    ((hb.isSpace_slice_iff hj).mpr hafter) (fun c hc => ?head) (fun c hc => ?last)
  case head =>
    rcases Nat.lt_or_ge first stop with hlt | hge
    case inl =>
      rw [hb.head?_slice hlt (by omega)] at hc
      rw [← hb.isBlank_eq (List.mem_of_mem_head? hc), hhead (by omega)]
    case inr => simp [slice_of_le hge] at hc
  case last =>
    rcases Nat.lt_or_ge first stop with hlt | hge
    case inl =>
      rw [hb.getLast?_slice hlt (by omega)] at hc
      rw [← hb.isBlank_eq (List.mem_of_getLast? hc), hlast hlt]
    case inr => simp [slice_of_le hge] at hc

end WellFormed
end Buffer

namespace Comment

variable {buf : Buffer} {profile : Profile} {line i q start : Nat} {s : BlockSymbols}
  {closer : String}

theorem isLineRest_iff (hb : buf.WellFormed) (hl : 1 ≤ line) (hl' : line ≤ buf.lineCount)
    (hi : buf.lineStart line ≤ i) (hi' : i ≤ lineStop buf line) :
    isLineRest buf line i = true ↔
      ∀ c ∈ buf.slice i (lineStop buf line), Text.isSpace c = true := by
  have hsize := (lineStop_le_lineEnd buf line).trans (Buffer.lineEnd_le_size hl hl')
  have hle := buf.le_afterBlanks i (lineStop buf line)
  have hle' := buf.afterBlanks_le hi'
  -- A line break before the end of the line would end it, and so would the end of the text.
  have hstop : isLineRest buf line i = true ↔
      buf.afterBlanks i (lineStop buf line) = lineStop buf line := by
    simp only [isLineRest, Bool.or_eq_true, decide_eq_true_eq]
    refine ⟨?_, .inr⟩
    rintro ((hbreak | hge) | heq)
    case inl.inl =>
      by_contra hne
      have hend := lineStop_le_lineEnd buf line
      obtain ⟨hnext, hlt⟩ := Buffer.lineEnd_eq_of_isLineBreak hl' (hi.trans hle) (by omega) hbreak
      have := (lineStop_of_lt hl hlt).1
      omega
    case inl.inr => omega
    case inr => exact heq
  rw [hstop, hb.isSpace_slice_iff hsize]
  constructor
  case mp => exact fun h k hk hk' => Buffer.isBlank_of_lt_afterBlanks hk (hk'.trans_eq h.symm)
  case mpr =>
    intro h
    by_contra hne
    have hlt : buf.afterBlanks i (lineStop buf line) < lineStop buf line := by omega
    have hblank := Buffer.not_isBlank_afterBlanks hlt
    simp [h _ hle hlt] at hblank

theorem findCloser?_on_line {p : Nat × Nat} (hl : 1 ≤ line)
    (hl' : line ≤ buf.lineCount) (hi : buf.lineStart line ≤ i)
    (h : findCloser? buf closer line i = some p) :
    1 ≤ p.1 ∧ p.1 ≤ buf.lineCount ∧ buf.lineStart p.1 ≤ p.2 ∧ p.2 < lineStop buf p.1 := by
  fun_induction findCloser? buf closer line i
  case case1 hj =>
    cases h
    exact ⟨hl, hl', hi.trans (Buffer.le_seek ..), hj⟩
  case case2 hlt ih => exact ih (Nat.succ_pos _) hlt (lineFirst_bounds (Nat.succ_pos _) hlt).1 h
  case case3 => cases h

-- The closer stands on its line with the position behind it.
theorem firstMatch_on_line (hb : buf.WellFormed) (hs : IsSymbolic closer)
    (hl : 1 ≤ line) (hl' : line ≤ buf.lineCount) (hi : buf.lineStart line ≤ i)
    (hi' : i ≤ lineStop buf line) (hq : firstMatch buf closer i < buf.size) :
    let q := firstMatch buf closer i
    1 ≤ buf.lineOf q ∧ buf.lineOf q ≤ buf.lineCount ∧ buf.lineStart (buf.lineOf q) ≤ q ∧
      q + closer.toList.length ≤ lineStop buf (buf.lineOf q) := by
  have hfound := findCloser?_eq hb hs hl hl' hi hi'
  rw [if_pos hq] at hfound
  obtain ⟨hpos, hle, hstart, hlt⟩ := findCloser?_on_line hl hl' hi hfound
  have hspells := Skip.spells_of_matchesAt hb hs (matchesAt_firstMatch hq)
  exact ⟨hpos, hle, hstart, spells_le_lineStop hpos hle (Nat.le_of_lt hlt) hspells⟩

def EndsLine (buf : Buffer) (closer : String) (q : Nat) : Prop :=
  ∀ c ∈ buf.slice (q + closer.toList.length) (lineStop buf (buf.lineOf q)), Text.isSpace c = true

instance : Decidable (EndsLine buf closer q) :=
  inferInstanceAs (Decidable (∀ _ ∈ _, _))

def IsNote (cs : List Char) : Prop :=
  cs.head? = some '@' ∧ cs.getLast? = some '@'

instance : DecidablePred IsNote := fun _ =>
  inferInstanceAs (Decidable (_ ∧ _))

section

variable (hb : buf.WellFormed) (hc : IsSymbolic s.closer) (hl : 1 ≤ line)
  (hl' : line ≤ buf.lineCount) (hstart : buf.lineStart line ≤ start)
  (hstop : start ≤ lineStop buf line)
  (hskip : buf.skip? (lineFirst buf line) s.opener false = some start)

include hb hc hl hl' hstart hstop hskip

-- From the end of the last line the walk comes back to the closer.
theorem isCheckerNote_iff (hq : firstMatch buf s.closer start < buf.size)
    (hrest : EndsLine buf s.closer (firstMatch buf s.closer start)) :
    isCheckerNote buf s (.plain line (buf.lineOf (firstMatch buf s.closer start) + 1)) = true ↔
      IsNote (Prototype.inner (buf.slice start (firstMatch buf s.closer start))) := by
  obtain ⟨hpos, hle, -, hlast⟩ := firstMatch_on_line hb hc hl hl' hstart hstop hq
  have hsize := (lineStop_le_lineEnd buf _).trans (Buffer.lineEnd_le_size hpos hle)
  have hblank := (hb.isSpace_slice_iff hsize).mp hrest
  have hspells := Skip.spells_of_matchesAt hb hc (matchesAt_firstMatch hq)
  have hle : start ≤ firstMatch buf s.closer start := le_firstMatch
  generalize firstMatch buf s.closer start = q at *
  have hback : buf.beforeBlanks start (lineStop buf (buf.lineOf q)) = q + s.closer.toList.length :=
    Buffer.retreat_eq (by omega) hlast hblank fun _ => Skip.not_isBlank_of_spells hspells hc.1
  have hat : Kind.ofChar '@' = .symbol := by decide
  have hend := buf.beforeBlanks_le (buf.afterBlanks start q) q
  rw [IsNote, hb.inner_slice hle (by omega), hb.head?_slice_eq_iff hat (by omega),
    hb.getLast?_slice_eq_iff hat (by omega)]
  simp only [isCheckerNote, Candidate.plain, hskip, Nat.add_sub_cancel, hback, String.length_toList,
    Bool.and_eq_true, decide_eq_true_eq]
  tauto

theorem candidate_readBlock? :
    let q := firstMatch buf s.closer start
    (readBlock? buf line s false).map (·.candidate) =
      some (if q < buf.size ∧ EndsLine buf s.closer q then some (.plain line (buf.lineOf q + 1))
        else none) := by
  have hcloser := findCloser?_eq hb hc hl hl' hstart hstop
  have hafter : afterSymbol? buf line s.opener false = some start := by simp [afterSymbol?, hskip]
  by_cases hq : firstMatch buf s.closer start < buf.size
  case pos =>
    obtain ⟨hpos, hle, hfirst, hlast⟩ := firstMatch_on_line hb hc hl hl' hstart hstop hq
    have hchars := hb.afterChars_eq hc (matchesAt_firstMatch hq)
    have hrest := isLineRest_iff hb hpos hle (hfirst.trans (Nat.le_add_right ..)) hlast
    rw [if_pos hq] at hcloser
    simp only [readBlock?, hafter, hcloser, Option.bind_eq_bind, Option.bind_some, hq, true_and,
      hchars, hrest, EndsLine]
    split <;> rfl
  case neg =>
    rw [if_neg hq] at hcloser
    simp [readBlock?, hafter, hcloser, hq]

theorem mem_filter_candidate_iff {r : Reading} {c : Candidate}
    (hr : readBlock? buf line s false = some r) :
    let q := firstMatch buf s.closer start
    c ∈ r.candidate.filter (!isCheckerNote buf s ·) ↔
      c = .plain line (buf.lineOf q + 1) ∧ q < buf.size ∧ EndsLine buf s.closer q ∧
        ¬IsNote (Prototype.inner (buf.slice start q)) := by
  have hcandidate := candidate_readBlock? hb hc hl hl' hstart hstop hskip
  have hnote := isCheckerNote_iff hb hc hl hl' hstart hstop hskip
  rw [hr, Option.map_some, Option.some.injEq] at hcandidate
  rw [Option.mem_def, Option.filter_eq_some_iff, hcandidate]
  constructor
  case mp =>
    rintro ⟨hcandidate, hkept⟩
    split at hcandidate
    case isTrue h =>
      cases hcandidate
      exact ⟨rfl, h.1, h.2, by simpa [← hnote h.1 h.2] using hkept⟩
    case isFalse => cases hcandidate
  case mpr =>
    rintro ⟨rfl, hq, hrest, hn⟩
    rw [← hnote hq hrest] at hn
    exact ⟨if_pos ⟨hq, hrest⟩, by simpa using hn⟩

end

-- On a line with a plain opener at its beginning, the first closer behind the opener counts, on any
-- line. The lines of the comment are a candidate exactly if there is such a closer, only spaces and
-- tabs follow it, and what stands between the two is no note to a checker.
theorem block_accepted_iff (text : List Char) (profile : Profile) {tags : Tags} {signal : Signal}
    {n : Nat} {cs : List Candidate} (ho : IsSymbolic s.opener) (hc : IsSymbolic s.closer)
    (h : (scan (.ofChars text) profile tags signal n).outcome = .completed cs)
    (hl : Stands (.ofChars text) profile line)
    (hj : ∀ s ∈ profile.javadocBlockComments, beginsAlone (.ofChars text) line s.opener = false)
    (hs : profile.blockComments.find? (begins (.ofChars text) line ·.opener) = some s) :
    let buf := Buffer.ofChars text
    ∃ start, buf.skip? (lineFirst buf line) s.opener false = some start ∧
      let q := firstMatch buf s.closer start
      resume buf profile line =
        (if q < buf.size then buf.lineOf q + 1 else buf.lineCount + 1) ∧
      ∀ c, c ∈ cs ∧ c.startLine = line ↔
        c = .plain line (buf.lineOf q + 1) ∧ q < buf.size ∧ EndsLine buf s.closer q ∧
          ¬IsNote (Prototype.inner (buf.slice start q)) := by
  have hw := Buffer.wellFormed_ofChars text
  generalize Buffer.ofChars text = buf at *
  intro buf'
  have hopens : buf.matchesAt (lineFirst buf line) s.opener = true := by
    simpa [begins] using List.find?_some hs
  have hskip := Skip.skip?_of_matchesAt hw ho hopens
  have hfirst := lineFirst_bounds hl.one_le hl.2
  have hstart := hfirst.1.trans (Nat.le_add_right _ s.opener.toList.length)
  have hstop := spells_le_lineStop hl.one_le hl.2 hfirst.2 (Skip.spells_of_matchesAt hw ho hopens)
  obtain ⟨r, hr⟩ : ∃ r, readBlock? buf line s false = some r :=
    Option.isSome_iff_exists.mp ((isSome_readBlock? ..).trans hopens)
  have hread := read?_of_block (fun s hs => readBlock?_true_eq_none_iff.mpr (hj s hs)) hs
  have hnext := next_readBlock? hw ho hc hl.one_le hl.2 hr
  rw [hr, Option.map_some] at hread
  refine ⟨_, hskip, (resume_of_read? hl.2 hread).trans hnext, fun c => ?_⟩
  rw [mem_startLine_iff_of_completed h hl, hread]
  simp only [Option.some.injEq, exists_eq_left']
  exact mem_filter_candidate_iff hw hc hl.one_le hl.2 hstart hstop hskip hr

-- A comment of two lines, and a note to a checker.
theorem block_accepted_iff_two_lines :
    let profile := Profile.builtinC.prepared
    let buf := Buffer.ofChars "/* a\n b */ \n/*@null@*/".toList
    let cs : List Candidate := [.plain 1 3]
    (scan buf profile (.empty buf) .never 0).outcome = .completed cs ∧
      resume buf profile 1 = 3 ∧ .plain 1 3 ∈ cs ∧
      resume buf profile 3 = 4 ∧ ¬∃ c ∈ cs, c.startLine = 3 := by
  intro profile buf cs
  have h : (scan buf profile (.empty buf) .never 0).outcome = .completed cs := by decide +kernel
  have hfirst : Stands buf profile 1 := ⟨.refl 1, by decide +kernel⟩
  obtain ⟨start, hstart, hresume, haccept⟩ :=
    block_accepted_iff (s := ⟨"/*", "*/"⟩) _ profile (by decide) (by decide) h hfirst
      (by decide +kernel) (by decide +kernel)
  obtain rfl : 2 = start := Option.some.inj (.trans (by decide +kernel) hstart)
  replace hresume : resume buf profile 1 = 3 := hresume.trans (by decide +kernel)
  have hsecond : Stands buf profile 3 := hresume ▸ hfirst.resume (by decide +kernel)
  obtain ⟨start, hstart, hresume', haccept'⟩ :=
    block_accepted_iff (s := ⟨"/*", "*/"⟩) _ profile (by decide) (by decide) h hsecond
      (by decide +kernel) (by decide +kernel)
  obtain rfl : 14 = start := Option.some.inj (.trans (by decide +kernel) hstart)
  refine ⟨h, hresume, ?accepted, hresume'.trans (by decide +kernel), ?rejected⟩
  case accepted =>
    exact ((haccept (.plain 1 3)).mpr
      ⟨by decide +kernel, by decide +kernel, by decide +kernel, by decide +kernel⟩).1
  case rejected =>
    rintro ⟨c, hc⟩
    obtain ⟨-, -, -, hnote⟩ := (haccept' c).mp hc
    exact hnote (by decide +kernel)

end Comment
end SourceDocs

import SourceDocs.Proofs.Comment.LineContent

namespace SourceDocs
namespace Comment

variable {buf : Buffer} {profile : Profile} {tags : Tags} {tag t : Tag} {r : Reading} {d : Span}
  {line l i j k n : Nat}

namespace Tags

@[simp] theorem size_set (tag : Option Tag) : (tags.set i tag).slots.size = tags.slots.size := by
  unfold set
  split <;> simp

@[simp] theorem size_setRange (tag : Option Tag) :
    (tags.setRange i j tag).slots.size = tags.slots.size := by
  fun_induction setRange tags i j tag
  case case1 ih => rw [ih, size_set]
  case case2 => rfl

theorem isFree_of_get_eq_none (hk : k < tags.slots.size) (h : tags.get k = none) :
    tags.isFree k = true := by
  simpa [get, isFree, hk] using h

theorem exists_get (hk : k < tags.slots.size) (h : tags.isFree k = false) :
    ∃ t, tags.get k = some t := by
  rw [← Option.isSome_iff_exists, Option.isSome_iff_ne_none]
  intro hn
  rw [isFree_of_get_eq_none hk hn] at h
  cases h

theorem not_isFree_of_get (h : tags.get k = some t) : tags.isFree k = false := by
  rw [Bool.eq_false_iff]
  intro hf
  rw [get_eq_none hf] at h
  cases h

theorem lt_size_of_get (h : tags.get k = some t) : k < tags.slots.size := by
  by_contra hk
  simp [get, Nat.le_of_not_lt hk] at h

end Tags

@[simp] theorem size_tagRule (tags : Tags) (line : Nat) :
    (tagRule buf tags line).slots.size = tags.slots.size := by
  unfold tagRule
  dsimp only
  split
  case isTrue => exact Tags.size_setRange _
  case isFalse => rfl

theorem size_foldl {α : Type} {f : Tags → α → Tags}
    (h : ∀ tags x, (f tags x).slots.size = tags.slots.size) (xs : List α) (tags : Tags) :
    (xs.foldl f tags).slots.size = tags.slots.size := by
  induction xs generalizing tags
  case nil => rfl
  case cons x xs hi => rw [List.foldl_cons, hi, h]

theorem Reading.size_tag (buf : Buffer) (r : Reading) (tags : Tags) :
    (r.tag buf tags).slots.size = tags.slots.size := by
  rw [tag_eq, size_foldl fun _ _ => size_tagRule _ _, size_foldl fun _ _ => Tags.size_setRange _]

def StartLines (buf : Buffer) (line stop : Nat) (spans : List Span) : Prop :=
  ∀ d ∈ spans, ∃ l, line ≤ l ∧ l < stop ∧ d.start = lineFirst buf l

theorem StartLines.mono {stop stop' : Nat} {spans : List Span} (h : StartLines buf line stop spans)
    (hle : stop ≤ stop') : StartLines buf line stop' spans := by
  intro d hd
  obtain ⟨l, hl, hl', hstart⟩ := h d hd
  exact ⟨l, hl, hl'.trans_le hle, hstart⟩

theorem startLines_symbolRun (buf : Buffer) (symbol : String) (line : Nat) :
    StartLines buf line (line + (symbolRun buf symbol line).length)
      (symbolRun buf symbol line) := by
  fun_induction symbolRun buf symbol line
  case case1 line hl i hi ih =>
    intro d hd
    rw [List.length_cons]
    rcases List.mem_cons.mp hd with rfl | hd
    case inl => exact ⟨line, Nat.le_refl _, by omega, rfl⟩
    case inr =>
      obtain ⟨l, hl, hl', hstart⟩ := ih d hd
      exact ⟨l, by omega, by omega, hstart⟩
  all_goals exact fun d hd => absurd hd List.not_mem_nil

theorem startLines_readLines? {first following : String} {alone : Bool}
    {found : Candidate × List Span} (h : readLines? buf line first following alone = some found) :
    StartLines buf line found.1.endLine found.2 := by
  obtain ⟨i, -, h⟩ := Option.bind_eq_some_iff.mp h
  cases h
  intro d hd
  rcases List.mem_cons.mp hd with rfl | hd
  case inl => exact ⟨line, Nat.le_refl _, by simp only [Candidate.plain]; omega, rfl⟩
  case inr =>
    obtain ⟨l, hl, hl', hstart⟩ := startLines_symbolRun buf following (line + 1) d hd
    exact ⟨l, by omega, hl', hstart⟩

theorem startLines_readJavadocLines? {found : Candidate × List Span}
    (h : readJavadocLines? buf profile line = some found) :
    StartLines buf line found.1.endLine found.2 := by
  obtain ⟨p, -, hread⟩ := List.exists_of_findSome?_eq_some h
  exact startLines_readLines? hread

-- The longer reading is chosen, so the symbols of both stand on its lines.
theorem startLines_chooseReading {xml : Candidate × List Span}
    {javadoc : Option (Candidate × List Span)} (hx : StartLines buf line xml.1.endLine xml.2)
    (hj : ∀ found ∈ javadoc, StartLines buf line found.1.endLine found.2) :
    StartLines buf line (chooseReading xml javadoc).next
      (chooseReading xml javadoc).delimiters := by
  cases javadoc
  case none => exact hx
  case some found =>
    have hnext : (chooseReading xml (some found)).next = max xml.1.endLine found.1.endLine := by
      simp only [chooseReading, Reading.ofLines]
      split
      case isTrue => simp only [Candidate.asJavadoc]; omega
      case isFalse => split <;> simp only [Candidate.asJavadoc, Candidate.asXml] <;> omega
    rw [hnext]
    intro d hd
    rcases List.mem_append.mp hd with hd | hd
    case inl => exact hx.mono (Nat.le_max_left ..) d hd
    case inr => exact (hj found rfl).mono (Nat.le_max_right ..) d hd

def Reading.SetsOff (buf : Buffer) (line : Nat) (r : Reading) (d : Span) : Prop :=
  (∃ l, line ≤ l ∧ l < r.next ∧ d.start = lineFirst buf l) ∨
    ∃ start closer last, ⟨lineFirst buf line, start⟩ ∈ r.delimiters ∧ r.next = last + 1 ∧
      buf.lineStart line ≤ start ∧ IsCloser buf line start closer last d

theorem setsOff_readBlock? {symbols : BlockSymbols} {alone : Bool} (hl : line ≤ buf.lineCount)
    (h : readBlock? buf line symbols alone = some r) (hd : d ∈ r.delimiters) :
    r.SetsOff buf line d := by
  have hsound := sound_readBlock? hl h
  obtain ⟨start, hstart, h⟩ := Option.bind_eq_some_iff.mp h
  split at h
  case h_1 =>
    cases h
    cases hd
  case h_2 last i hcloser =>
    dsimp only at h
    split at h <;> cases h
    case isFalse => cases hd
    case isTrue hrest =>
      simp only [List.mem_cons, List.not_mem_nil, or_false] at hd
      rcases hd with rfl | rfl
      case inl => exact .inl ⟨line, Nat.le_refl _, hsound.lt_next, rfl⟩
      case inr =>
        exact .inr ⟨start, symbols.closer, last, by simp, rfl, lineStart_le_afterSymbol? hstart,
          hcloser, rfl, hrest⟩

-- One case for each style, as they are tried.
theorem setsOff_read? (hl : line ≤ buf.lineCount) (h : read? buf profile line = some r)
    (hd : d ∈ r.delimiters) : r.SetsOff buf line d := by
  simp only [read?, Option.or_eq_some_iff, Option.map_eq_some_iff] at h
  rcases h with h | ⟨-, h | ⟨-, h | ⟨-, h | ⟨-, h⟩⟩⟩⟩
  case inl | inr.inl =>
    obtain ⟨s, -, h⟩ := List.exists_of_findSome?_eq_some h
    obtain ⟨r, hread, rfl⟩ := Option.map_eq_some_iff.mp h
    have hsets := setsOff_readBlock? hl hread hd
    exact hsets
  case inr.inr.inl =>
    obtain ⟨xml, hread, rfl⟩ := h
    obtain ⟨s, -, hread⟩ := List.exists_of_findSome?_eq_some hread
    exact .inl (startLines_chooseReading (startLines_readLines? hread)
      (fun _ hj => startLines_readJavadocLines? hj) d hd)
  case inr.inr.inr.inl =>
    obtain ⟨javadoc, hread, rfl⟩ := h
    exact .inl (startLines_readJavadocLines? hread d hd)
  case inr.inr.inr.inr =>
    obtain ⟨plain, hread, rfl⟩ := h
    obtain ⟨s, -, hread⟩ := List.exists_of_findSome?_eq_some hread
    exact .inl (startLines_readLines? hread d hd)

theorem Reading.SetsOff.start_le (h : r.SetsOff buf line d) (hl : 1 ≤ line)
    (hl' : line ≤ buf.lineCount) (hsound : r.Sound buf line) : d.start ≤ buf.lineStart r.next := by
  have hle {l : Nat} (hpos : 1 ≤ l) (hnext : l < r.next) : lineStop buf l ≤ buf.lineStart r.next :=
    (lineStop_le_lineEnd buf l).trans (lineStart_mono (Nat.succ_pos _) hnext hsound.next_le)
  rcases h with ⟨l, hline, hnext, hstart⟩ | ⟨start, closer, last, -, hnext, hstart, hcloser⟩
  case inl =>
    have hlast : l ≤ buf.lineCount := Nat.le_of_lt_succ (hnext.trans_le hsound.next_le)
    rw [hstart]
    exact (lineFirst_bounds (hl.trans hline) hlast).2.trans (hle (hl.trans hline) hnext)
  case inr =>
    obtain ⟨hpos, -, -, hlt⟩ := findCloser?_on_line hl hl' hstart hcloser.found
    exact (Nat.le_of_lt hlt).trans (hle hpos (by dsimp only; omega))

-- The line holds a rule as soon as one of its tokens is tagged as decoration, and no delimiter is
-- in it.
def RuleAlone (buf : Buffer) (tags : Tags) (line : Nat) : Prop :=
  ∀ j, buf.lineStart line ≤ j → j < buf.lineEnd line → tags.get j = some .decoration →
    InRule buf tags line j ∧ ∀ k, InRule buf tags line k → tags.get k ≠ some .delimiter

-- The tags when the scan stands on a line. All rules are before it. From its beginning on there may
-- be the rest of a delimiter.
structure Scanned (buf : Buffer) (line : Nat) (tags : Tags) : Prop where
  size_eq : tags.slots.size = buf.size
  rules : ∀ l, 1 ≤ l → l < line → RuleAlone buf tags l
  no_rule : ∀ k, buf.lineStart line ≤ k → tags.get k ≠ some .decoration
  run : ∀ q < buf.size, tags.isFree q = false → ∀ k, buf.lineStart line ≤ k → k ≤ q →
    tags.isFree k = false

theorem inRule_grown {old new : Tags} (hg : old.Grown (lineStop buf line) new) :
    InRule buf new line k ↔ InRule buf old line k := by
  refine ⟨fun h => ?_, (·.grown hg)⟩
  have hcontent := lineContent_grown hg
  exact ⟨hcontent ▸ h.rule, hcontent ▸ h.start_le, hcontent ▸ h.lt_stop⟩

theorem RuleAlone.grown {old new : Tags} (h : RuleAlone buf old line)
    (hg : old.Grown (lineStop buf line) new)
    (hn : ∀ j, buf.lineStart line ≤ j → j < buf.lineEnd line → new.get j = some .decoration →
      old.get j = some .decoration) : RuleAlone buf new line := by
  intro j hj hj' hd
  obtain ⟨hrule, hfree⟩ := h j hj hj' (hn j hj hj' hd)
  refine ⟨hrule.grown hg, fun k hk => ?_⟩
  rw [ne_eq, hg.delimiter k hk.lt_lineStop]
  exact hfree k ((inRule_grown hg).mp hk)

theorem Scanned.mono {m : Nat} (h : Scanned buf line tags) (hl : 1 ≤ line) (hm : line ≤ m)
    (hm' : m ≤ buf.lineCount + 1) : Scanned buf m tags where
  size_eq := h.size_eq
  rules l hl1 hl2 := by
    by_cases hlt : l < line
    case pos => exact h.rules l hl1 hlt
    case neg =>
      intro j hj _ hd
      have := lineStart_mono hl (Nat.le_of_not_lt hlt) (Nat.le_of_lt (hl2.trans_le hm'))
      exact absurd hd (h.no_rule j (this.trans hj))
  no_rule k hk := h.no_rule k ((lineStart_mono hl hm hm').trans hk)
  run q hq hf k hk := h.run q hq hf k ((lineStart_mono hl hm hm').trans hk)

theorem scanned_empty (buf : Buffer) : Scanned buf 1 (.empty buf) where
  size_eq := by simp [Tags.empty]
  rules l hl hl' := by omega
  no_rule k _ := by simp [Tags.get_empty]
  run q hq hf := by simp [Tags.empty, Tags.isFree, hq] at hf

namespace Scanned

variable (h : Scanned buf line tags) (hl : 1 ≤ line) (hl' : line ≤ buf.lineCount)
  (hr : read? buf profile line = some r)

include h

-- The delimiters are tagged before the rules, and no other tags stand there.
theorem get_tag_of_taken (hk : buf.lineStart line ≤ k) (hk' : k < buf.size)
    (ht : (r.delimiters.foldl (fun t s => t.setRange s.start s.stop (some .delimiter))
      tags).isFree k = false) : (r.tag buf tags).get k = some .delimiter := by
  rw [Reading.tag_eq]
  refine ((Tags.Grown.foldl (fun l _ t => grown_tagRule buf (k + 1) t l) _).delimiter k
    (Nat.lt_succ_self k)).mpr ?_
  have hsize := size_foldl (f := fun t (s : Span) => t.setRange s.start s.stop (some .delimiter))
    (fun _ _ => Tags.size_setRange _) r.delimiters tags
  obtain ⟨t, hget⟩ := Tags.exists_get (by rwa [hsize, h.size_eq]) ht
  rcases get_of_get_tagSpans hget with hold | ⟨rfl, -⟩
  case inr => exact hget
  case inl =>
    cases t
    case delimiter => exact hget
    case decoration => exact absurd hold (h.no_rule k hk)

theorem get_tag_of_mem (hd : d ∈ r.delimiters) (hk : buf.lineStart line ≤ k) (hk' : k < buf.size)
    (hdk : d.start ≤ k ∧ k < d.stop) : (r.tag buf tags).get k = some .delimiter :=
  h.get_tag_of_taken hk hk' (Reading.isFree_delimiters hd hdk.1 hdk.2 tags)

theorem get_tag_of_get {q : Nat} (hq : tags.get q = some .delimiter) (hk : buf.lineStart line ≤ k)
    (hkq : k ≤ q) : (r.tag buf tags).get k = some .delimiter := by
  have hlt := h.size_eq ▸ Tags.lt_size_of_get hq
  refine h.get_tag_of_taken hk (hkq.trans_lt hlt) ?_
  exact (Reading.grown_delimiters (fun _ _ => Nat.zero_le _) tags).taken k
    (h.run q hlt (Tags.not_isFree_of_get hq) k hk hkq)

include hl hl' hr

-- Delimiters at the beginning of the line are not in its content, and a closer is not in a rule.
theorem not_delimiter (hb : buf.WellFormed) (ha : buf.BlanksApart) (hline : line ≤ l)
    (hnext : l < r.next) (hj : InRule buf (r.tag buf tags) l j)
    (hfree : (r.tag buf tags).get j ≠ some .delimiter) (hk : InRule buf (r.tag buf tags) l k) :
    (r.tag buf tags).get k ≠ some .delimiter := by
  have hsound := sound_read? hl' hr
  have hlast : l ≤ buf.lineCount := Nat.le_of_lt_succ (hnext.trans_le hsound.next_le)
  have hpos : 1 ≤ l := hl.trans hline
  have hstart := lineStart_mono hl hline (Nat.le_succ_of_le hlast)
  have hfirst := (lineFirst_bounds hpos hlast).1
  have hend := (lineStop_le_lineEnd buf l).trans (Buffer.lineEnd_le_size hpos hlast)
  have hk_stop := hk.lt_lineStop
  obtain ⟨p, hp, hpk, hfree_p⟩ := hk.exists_not_delimiter
  have hmem {d : Span} (hd : d ∈ r.delimiters) {q : Nat} (hq : lineFirst buf l ≤ q)
      (hq' : q < buf.size) (hdq : d.start ≤ q ∧ q < d.stop) :
      (r.tag buf tags).get q = some .delimiter :=
    h.get_tag_of_mem hd (by omega) hq' hdq
  intro hdelimiter
  rcases Reading.get_of_get_tag hdelimiter with hold | ⟨-, d, hd, hdk⟩ | ⟨ht, -⟩
  case inl => exact hfree_p (h.get_tag_of_get hold (by omega) hpk)
  case inr.inr => cases ht
  case inr.inl =>
    rcases setsOff_read? hl' hr hd with
      ⟨m, hm, hm', hstart'⟩ | ⟨start, closer, last, ho, hn, hs, hc⟩
    case inl =>
      have hm_last : m ≤ buf.lineCount := Nat.le_of_lt_succ (hm'.trans_le hsound.next_le)
      rcases Nat.lt_or_ge l m with hlt | hge
      case inl =>
        have := hk.lt_lineStart hlt (Nat.le_succ_of_le hm_last)
        have := (lineFirst_bounds (hl.trans hm) hm_last).1
        omega
      case inr =>
        have := lineFirst_mono (hl.trans hm) hge hlast
        exact hfree_p (hmem hd hp (by omega) (by omega))
    case inr =>
      obtain ⟨-, hlast', hon⟩ := hc.on_line hl hl' hs
      rcases Nat.lt_or_ge l last with hlt | hge
      case inl =>
        have := hk.lt_lineStart hlt (Nat.le_succ_of_le hlast')
        omega
      case inr =>
        obtain rfl : last = l := by omega
        refine hc.not_in_rule hb hl hl' hs (fun q hq hq' hq'' => ?tagged) ha hj hfree ?ahead hk hdk
        case tagged => exact h.get_tag_of_mem hd (by omega) (by omega) ⟨hq, hq'⟩
        case ahead =>
          by_contra hlt
          have := lineFirst_mono hl hline hlast
          have := hj.lineFirst_le
          have := hj.lt_lineStop
          exact hfree (hmem ho hj.lineFirst_le (by omega) (by dsimp only; omega))

-- No rule of this comment lies on the lines before it, and no tags of others on its lines.
theorem rules_tag (hb : buf.WellFormed) (ha : buf.BlanksApart) (hpos : 1 ≤ l) (hnext : l < r.next) :
    RuleAlone buf (r.tag buf tags) l := by
  have hsound := sound_read? hl' hr
  have hlast : l ≤ buf.lineCount := Nat.le_of_lt_succ (hnext.trans_le hsound.next_le)
  -- A decoration on this line is an old one, or it is part of a rule on it.
  have hcases (j : Nat) (hj : buf.lineStart l ≤ j) (hj' : j < buf.lineEnd l)
      (hd : (r.tag buf tags).get j = some .decoration) :
      tags.get j = some .decoration ∨ line ≤ l ∧ InRule buf (r.tag buf tags) l j := by
    refine (Reading.get_of_get_tag hd).imp_right ?_
    rintro (⟨ht, -⟩ | ⟨-, c, hc, m, hm, hrule⟩)
    case inl => cases ht
    case inr =>
      have hstart := hsound.start_eq c hc
      have hend := hsound.end_eq c hc
      have hle := hsound.next_le
      simp only [Candidate.lines, Candidate.lineCount, List.mem_range'_1] at hm
      obtain rfl : m = l := by
        rw [← hrule.lineOf_eq (by omega) (by omega), Buffer.lineOf_eq hpos hlast hj hj']
      exact ⟨by omega, hrule⟩
  rcases Nat.lt_or_ge l line with hlt | hge
  case inl =>
    have hbefore : lineStop buf l ≤ buf.lineStart line :=
      (lineStop_le_lineEnd buf l).trans
        (lineStart_mono (Nat.succ_pos _) hlt (Nat.le_succ_of_le hl'))
    have hgrown : tags.Grown (buf.lineStart line) (r.tag buf tags) :=
      Reading.grown_tag (lineStart_le_read? hl hl' hr) tags
    refine (h.rules l hpos hlt).grown (hgrown.mono hbefore) fun j hj hj' hd => ?_
    exact (hcases j hj hj' hd).resolve_right fun hnew => absurd hnew.1 (Nat.not_le_of_lt hlt)
  case inr =>
    have hstart := lineStart_mono hl hge (Nat.le_succ_of_le hlast)
    intro j hj hj' hd
    obtain ⟨-, hrule⟩ := (hcases j hj hj' hd).resolve_left (h.no_rule j (hstart.trans hj))
    have hfree : (r.tag buf tags).get j ≠ some .delimiter := by simp [hd]
    exact ⟨hrule, fun k hk => h.not_delimiter hl hl' hr hb ha hge hnext hrule hfree hk⟩

theorem step (hb : buf.WellFormed) (ha : buf.BlanksApart) :
    Scanned buf r.next (r.tag buf tags) := by
  have hsound := sound_read? hl' hr
  have hstart := lineStart_mono hl (Nat.le_of_lt hsound.lt_next) hsound.next_le
  have hpos : 1 ≤ r.next := hl.trans (Nat.le_of_lt hsound.lt_next)
  -- No rule reaches the next line.
  have hrule {c : Candidate} {m k : Nat} (hc : c ∈ r.candidate) (hm : m ∈ c.lines)
      (hk : InRule buf (r.tag buf tags) m k) : k < buf.lineStart r.next :=
    hk.lt_lineStop.trans_le (hsound.lineStop_le hc hm)
  refine ⟨(Reading.size_tag buf r tags).trans h.size_eq,
    fun l hpos hnext => h.rules_tag hl hl' hr hb ha hpos hnext, fun k hk hd => ?no_rule,
    fun q hq hf k hk hkq => ?run⟩
  case no_rule =>
    rcases Reading.get_of_get_tag hd with hold | ⟨ht, -⟩ | ⟨-, c, hc, m, hm, hin⟩
    case inl => exact h.no_rule k (hstart.trans hk) hold
    case inr.inl => cases ht
    case inr.inr => exact Nat.not_lt_of_le hk (hrule hc hm hin)
  case run =>
    obtain ⟨t, ht⟩ := Tags.exists_get (by rwa [Reading.size_tag, h.size_eq]) hf
    rcases Reading.get_of_get_tag ht with hold | ⟨-, d, hd, hdq⟩ | ⟨-, c, hc, m, hm, hin⟩
    case inl =>
      have hgrown : tags.Grown 0 (r.tag buf tags) :=
        Reading.grown_tag (fun _ _ => Nat.zero_le _) tags
      exact hgrown.taken k (h.run q hq (Tags.not_isFree_of_get hold) k (hstart.trans hk) hkq)
    case inr.inl =>
      have hle := (setsOff_read? hl' hr hd).start_le hl hl' hsound
      exact (Reading.settled_tag buf r tags).delimiters d hd k (hle.trans hk) (hkq.trans_lt hdq.2)
    case inr.inr => exact absurd (hrule hc hm hin) (Nat.not_lt_of_le (hk.trans hkq))

end Scanned

theorem scanned_scanReadings (profile : Profile) (hb : buf.WellFormed) (ha : buf.BlanksApart)
    (signal : Signal) (n : Nat) (h : Scanned buf line tags) (hl : 1 ≤ line)
    (hl' : line ≤ buf.lineCount + 1) :
    ∃ m, 1 ≤ m ∧ m ≤ buf.lineCount + 1 ∧
      Scanned buf m (scanReadings buf signal tags n (readings buf profile line)).tags := by
  induction line using stands_induction buf profile generalizing tags n
  case behind line hlt =>
    rw [readings_of_lt hlt]
    exact ⟨line, hl, hl', h⟩
  case step line hle ih =>
    rw [readings_of_le hle]
    by_cases hs : signal n = true
    case pos => exact ⟨line, hl, hl', by cases read? buf profile line <;> simpa [scanReadings, hs]⟩
    case neg =>
      cases hr : read? buf profile line
      case none =>
        rw [resume_of_read?_none hr] at ih ⊢
        simp only [scanReadings, if_neg hs]
        exact ih (n + 1) (h.mono hl (Nat.le_succ line) (Nat.succ_le_succ hle)) (Nat.succ_pos _)
          (Nat.succ_le_succ hle)
      case some r =>
        have hsound := sound_read? hle hr
        rw [resume_of_read? hle hr] at ih ⊢
        simp only [scanReadings, if_neg hs]
        exact ih (n + 1) (h.step hl hle hr hb ha) (hl.trans (Nat.le_of_lt hsound.lt_next))
          hsound.next_le

-- Wherever a scan over a fresh table is stopped, a line on which a token is tagged as decoration is
-- a rule, and no delimiter is in it.
theorem ruleAlone_scan (text : List Char) (profile : Profile) (signal : Signal) (n line : Nat) :
    let buf := Buffer.ofChars text
    RuleAlone buf (scan buf profile (.empty buf) signal n).tags line := by
  intro buf j hj hj' hd
  obtain ⟨m, hm, hm', h⟩ := scanned_scanReadings profile
    (Buffer.wellFormed_ofChars text) (Buffer.blanksApart_ofChars text) signal n
    (scanned_empty buf) (Nat.le_refl 1) (Nat.le_add_left 1 _)
  have hlt : j < buf.size := h.size_eq ▸ Tags.lt_size_of_get hd
  obtain ⟨hpos, hlast⟩ := Buffer.line_bounds (hj.trans_lt hlt)
  rcases Nat.lt_or_ge line m with hlm | hge
  case inl => exact h.rules line hpos hlm j hj hj' hd
  case inr =>
    have := lineStart_mono hm hge (Nat.le_succ_of_le hlast)
    exact absurd hd (h.no_rule j (this.trans hj))

end Comment
end SourceDocs

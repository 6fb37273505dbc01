import SourceDocs.Proofs.Comment.Delimiter
import SourceDocs.Proofs.Comment.Rescan

namespace SourceDocs

open Token (Kind)

-- Copies of one symbol are the same character over and over.
theorem Buffer.WellFormed.slice_eq_replicate {buf : Buffer} {i j : Nat} {c : Char}
    (hb : buf.WellFormed) (h : ∀ k, i ≤ k → k < j → buf.isChar k c = true) :
    buf.slice i j = List.replicate (j - i) c := by
  induction hn : j - i generalizing i
  case zero => rw [slice_of_le (by omega), List.replicate_zero]
  case succ n ih =>
    have hi := h i (Nat.le_refl _) (by omega)
    obtain ⟨t, ht, hchars⟩ := hb.chars_of_isChar hi
    rw [slice_cons (by omega) ht, hchars, ih (fun k hk => h k (by omega)) (by omega),
      List.replicate_succ, List.singleton_append]

namespace Comment

variable {buf : Buffer} {profile : Profile} {tags old new : Tags} {tag t : Tag}
  {line i j k n : Nat} {r : Reading} {cs : List Candidate}

theorem Tags.get_empty (buf : Buffer) (k : Nat) : (Tags.empty buf).get k = none := by
  rw [get, empty, Array.getElem?_replicate]
  split <;> rfl

theorem Tags.get_of_get_setRange (h : (tags.setRange i j (some tag)).get k = some t) :
    tags.get k = some t ∨ t = tag ∧ i ≤ k ∧ k < j := by
  fun_induction Tags.setRange tags i j (some tag)
  case case1 tags i hlt ih =>
    rcases ih h with h | ⟨rfl, hk, hk'⟩
    case inl =>
      rw [get_set] at h
      split at h
      case isTrue hi => exact .inr ⟨(Option.some.inj h).symm, by omega, by omega⟩
      case isFalse => exact .inl h
    case inr => exact .inr ⟨rfl, by omega, hk'⟩
  case case2 => exact .inl h

structure InRule (buf : Buffer) (tags : Tags) (line k : Nat) : Prop where
  rule : isRule buf (lineContent buf tags line).start (lineContent buf tags line).stop = true
  start_le : (lineContent buf tags line).start ≤ k
  lt_stop : k < (lineContent buf tags line).stop

namespace InRule

theorem grown (h : InRule buf old line k) (hg : old.Grown (lineStop buf line) new) :
    InRule buf new line k := by
  have hcontent := lineContent_grown hg
  exact ⟨hcontent ▸ h.rule, hcontent ▸ h.start_le, hcontent ▸ h.lt_stop⟩

theorem lineOf_eq (h : InRule buf tags line k) (hl : 1 ≤ line) (hl' : line ≤ buf.lineCount) :
    buf.lineOf k = line := by
  have ⟨hfirst, hfirst'⟩ := lineFirst_bounds hl hl'
  have hend := lineStop_le_lineEnd buf line
  have hstart : lineFirst buf line ≤ (lineContent buf tags line).start :=
    (Buffer.le_seek ..).trans (buf.le_afterBlanks ..)
  have hstop : (lineContent buf tags line).stop ≤ lineStop buf line :=
    (buf.beforeBlanks_le ..).trans (Buffer.retreat_le ..)
  have := h.start_le
  have := h.lt_stop
  exact Buffer.lineOf_eq hl hl' (by omega) (by omega)

theorem exists_copies (hb : buf.WellFormed) (h : InRule buf tags line k) :
    ∃ c n, Kind.ofChar c = .symbol ∧ 3 ≤ n ∧
      buf.slice (lineContent buf tags line).start (lineContent buf tags line).stop =
        List.replicate n c := by
  have hrule := h.rule
  unfold isRule at hrule
  split at hrule
  case h_2 => cases hrule
  case h_1 c hc =>
    simp only [Bool.and_eq_true, decide_eq_true_eq, List.all_eq_true, List.mem_range'_1] at hrule
    obtain ⟨hlen, hall⟩ := hrule
    have hfirst : buf.isChar (lineContent buf tags line).start c = true := by
      simp [Buffer.isChar, hc]
    have hkind : Kind.ofChar c = .symbol := by
      obtain ⟨u, hu, hk, -⟩ := Buffer.isChar_iff.mp hfirst
      have hmem : c ∈ buf.chars (lineContent buf tags line).start := by
        rw [hb.chars_eq hfirst]
        exact .head _
      have hkind := hb.kind?_of_mem hmem
      rw [Buffer.kind?, hu, Option.map_some, hk] at hkind
      exact (Option.some.inj hkind).symm
    exact ⟨c, _, hkind, by omega,
      hb.slice_eq_replicate fun k hk hk' => hall k ⟨hk, by omega⟩⟩

end InRule

theorem get_of_get_tagRule (h : (tagRule buf tags line).get k = some t) :
    tags.get k = some t ∨ t = .decoration ∧ InRule buf tags line k := by
  unfold tagRule at h
  dsimp only at h
  split at h
  case isTrue hrule =>
    refine (Tags.get_of_get_setRange h).imp_right ?_
    exact fun ⟨ht, hk, hk'⟩ => ⟨ht, hrule, hk, hk'⟩
  case isFalse => exact .inl h

-- Rules that are tagged later leave those before them what they are.
theorem get_of_get_tagRules {lines : List Nat}
    (h : (lines.foldl (tagRule buf) tags).get k = some t) :
    tags.get k = some t ∨
      t = .decoration ∧ ∃ l ∈ lines, InRule buf (lines.foldl (tagRule buf) tags) l k := by
  induction lines generalizing tags
  case nil => exact .inl h
  case cons l lines hi =>
    rcases hi h with h | ⟨ht, m, hm, hrule⟩
    case inr => exact .inr ⟨ht, m, .tail _ hm, hrule⟩
    case inl =>
      refine (get_of_get_tagRule h).imp_right ?_
      rintro ⟨ht, hrule⟩
      have hgrown := (grown_tagRule buf (lineStop buf l) tags l).trans
        (.foldl (fun m (_ : m ∈ lines) tags => grown_tagRule buf _ tags m) _)
      exact ⟨ht, l, .head _, hrule.grown hgrown⟩

theorem get_of_get_tagSpans {spans : List Span}
    (h : (spans.foldl (fun t s => t.setRange s.start s.stop (some .delimiter)) tags).get k =
      some t) :
    tags.get k = some t ∨ t = .delimiter ∧ ∃ d ∈ spans, d.start ≤ k ∧ k < d.stop := by
  induction spans generalizing tags
  case nil => exact .inl h
  case cons d spans hi =>
    rcases hi h with h | ⟨ht, d', hd', hk⟩
    case inl =>
      refine (Tags.get_of_get_setRange h).imp_right ?_
      exact fun ⟨ht, hk⟩ => ⟨ht, d, .head _, hk⟩
    case inr => exact .inr ⟨ht, d', .tail _ hd', hk⟩

-- A token has this tag as part of a delimiter of a reading, or of a rule in its candidate.
def Reading.Explains (buf : Buffer) (tags : Tags) (r : Reading) (k : Nat) (t : Tag) : Prop :=
  t = .delimiter ∧ r.Delimits k ∨
    t = .decoration ∧ ∃ c ∈ r.candidate, ∃ l ∈ c.lines, InRule buf tags l k

theorem Reading.get_of_get_tag (h : (r.tag buf tags).get k = some t) :
    tags.get k = some t ∨ r.Explains buf (r.tag buf tags) k t := by
  rw [tag_eq] at h ⊢
  rcases get_of_get_tagRules h with h | ⟨ht, l, hl, hrule⟩
  case inr =>
    obtain ⟨c, hc, hl⟩ := List.mem_flatMap.mp hl
    exact .inr (.inr ⟨ht, c, Option.mem_toList.mp hc, l, hl, hrule⟩)
  case inl =>
    exact (get_of_get_tagSpans h).imp_right .inl

-- The rules of a comment lie before all that is read later.
theorem Reading.Explains.tagged (hl : 1 ≤ line) (hl' : line ≤ buf.lineCount)
    (hr : read? buf profile line = some r) (h : r.Explains buf tags k t) :
    r.Explains buf (tagged buf tags (readings buf profile r.next)) k t := by
  refine h.imp_right ?_
  rintro ⟨ht, c, hc, l, hline, hrule⟩
  have hsound := sound_read? hl' hr
  have hnext : 1 ≤ r.next := hl.trans (Nat.le_of_lt hsound.lt_next)
  have hgrown : tags.Grown (buf.lineStart r.next) (Comment.tagged buf tags
      ((readings buf profile r.next).take (readings buf profile r.next).length)) :=
    grown_tagged profile hnext tags _
  rw [List.take_length] at hgrown
  exact ⟨ht, c, hc, l, hline, hrule.grown (hgrown.mono (hsound.lineStop_le hc hline))⟩

theorem get_of_get_tagged (hl : 1 ≤ line)
    (h : (tagged buf tags (readings buf profile line)).get k = some t) :
    tags.get k = some t ∨ ∃ m r, StandsFrom buf profile line m ∧ m ≤ buf.lineCount ∧
      read? buf profile m = some r ∧
        r.Explains buf (tagged buf tags (readings buf profile line)) k t := by
  induction line using stands_induction buf profile generalizing tags
  case behind line hlt =>
    rw [readings_of_lt hlt] at h
    exact .inl h
  case step line hl' ih =>
    rw [readings_of_le hl'] at h ⊢
    change (tagged buf ((read? buf profile line).elim tags (·.tag buf tags))
      (readings buf profile (resume buf profile line))).get k = some t at h
    change _ ∨ ∃ m r, _ ∧ _ ∧ _ ∧ Reading.Explains buf
      (tagged buf ((read? buf profile line).elim tags (·.tag buf tags))
        (readings buf profile (resume buf profile line))) r k t
    have hlt := lt_resume buf profile line
    rcases ih (by omega) h with h | ⟨m, r, hm, hrest⟩
    case inr => exact .inr ⟨m, r, .step hl' hm, hrest⟩
    case inl =>
      cases hr : read? buf profile line
      case none => exact .inl (by rwa [hr] at h)
      case some r =>
        rw [hr] at h
        refine (Reading.get_of_get_tag h).imp_right fun h => ?_
        refine ⟨line, r, .refl _, hl', hr, ?_⟩
        rw [resume_of_read? hl' hr]
        exact h.tagged hl hl' hr

theorem tags_of_completed {signal : Signal} {rs : List (Option Reading)}
    (h : (scanReadings buf signal tags n rs).outcome = .completed cs) :
    (scanReadings buf signal tags n rs).tags = tagged buf tags rs := by
  induction rs generalizing tags n cs
  case nil => rfl
  case cons r rs hi =>
    by_cases hs : signal n = true
    case pos => cases r <;> simp [scanReadings, hs] at h
    case neg =>
      cases r
      case none =>
        simp only [scanReadings, if_neg hs] at h ⊢
        exact hi h
      case some r =>
        simp only [scanReadings, if_neg hs] at h ⊢
        cases hrest : (scanReadings buf signal (r.tag buf tags) (n + 1) rs).outcome
        case completed => exact hi hrest
        case cancelled => simp [hrest, Outcome.map] at h

-- Nothing is tagged before the scan, and so every tag comes from a reading on which it stands.
theorem exists_reading_of_get {signal : Signal}
    (h : (scan buf profile (.empty buf) signal n).outcome = .completed cs)
    (hk : (scan buf profile (.empty buf) signal n).tags.get k = some t) :
    ∃ m r, Stands buf profile m ∧ read? buf profile m = some r ∧
      r.Explains buf (scan buf profile (.empty buf) signal n).tags k t := by
  have htags : (scan buf profile (.empty buf) signal n).tags =
      tagged buf (.empty buf) (readings buf profile 1) := tags_of_completed h
  rw [htags] at hk ⊢
  rcases get_of_get_tagged (Nat.le_refl 1) hk with hk | ⟨m, r, hs, hl, hr, hexplains⟩
  case inl => cases (Tags.get_empty buf k).symm.trans hk
  case inr => exact ⟨m, r, ⟨hs, hl⟩, hr, hexplains⟩

-- Only comments are tagged: rules as decoration, and symbols as delimiters. Among the delimiters
-- are also those of a note to a checker, the symbols of the XML or Javadoc reading that does not
-- count, and the tokens that are passed with a closer because it has more bytes than characters.
theorem tagged_in_comment (text : List Char) (profile : Profile)
    (hp : ∀ s ∈ profile.commentSymbols, Unbroken s.toList) {signal : Signal}
    (h : (scan (.ofChars text) profile (.empty (.ofChars text)) signal n).outcome = .completed cs)
    (k : Nat) :
    let buf := Buffer.ofChars text
    let tags := (scan buf profile (.empty buf) signal n).tags
    (tags.get k = some .delimiter →
      (∃ c ∈ cs, c.containsLine (buf.lineOf k) = true ∧
        (Delimits buf profile c.startLine k ∨ DelimitsOther buf profile c.startLine k)) ∨
      ∃ line, Stands buf profile line ∧ (DelimitsNote buf profile line k ∨
        ∃ s ∈ blockPair? buf profile line, PassedWithCloser buf line s k)) ∧
    (tags.get k = some .decoration →
      (∃ c ∈ cs, c.containsLine (buf.lineOf k) = true) ∧
      let content := lineContent buf tags (buf.lineOf k)
      content.start ≤ k ∧ k < content.stop ∧
        ∃ c n, Kind.ofChar c = .symbol ∧ 3 ≤ n ∧
          buf.slice content.start content.stop = List.replicate n c) := by
  have hb := Buffer.wellFormed_ofChars text
  generalize Buffer.ofChars text = buf at *
  intro buf' tags
  constructor
  case left =>
    intro hk
    obtain ⟨m, r, hs, hr, ⟨-, hd⟩ | ⟨ht, -⟩⟩ := exists_reading_of_get h hk
    case inr => cases ht
    case inl =>
      rcases delimits_read? hb hs.one_le hs.2 hp hr hd with ⟨c, hc, hline, hd⟩ | hd
      case inr => exact .inr ⟨m, hs, hd⟩
      case inl =>
        have hstart := (sound_read? hs.2 hr).start_eq c hc
        refine .inl ⟨c, (mem_iff_of_completed h).mpr ?_, hline, by rwa [hstart]⟩
        rw [hstart]
        exact ⟨hs, r, hr, hc⟩
  case right =>
    intro hk
    obtain ⟨m, r, hs, hr, ⟨ht, -⟩ | ⟨-, c, hc, l, hl, hrule⟩⟩ := exists_reading_of_get h hk
    case inl => cases ht
    case inr =>
      have hsound := sound_read? hs.2 hr
      have hstart := hsound.start_eq c hc
      have hbounds : c.startLine ≤ l ∧ l < c.endLine := by
        simp only [Candidate.lines, Candidate.lineCount, List.mem_range'_1] at hl
        omega
      have hfits := hsound.fits hs.one_le hc
      have := hfits.one_le
      have := hfits.le
      have hline := hrule.lineOf_eq (by omega) (by omega)
      have hmem : c ∈ cs := by
        rw [mem_iff_of_completed h, hstart]
        exact ⟨hs, r, hr, hc⟩
      rw [hline]
      exact ⟨⟨c, hmem, Candidate.containsLine_iff.mpr hbounds⟩, hrule.start_le, hrule.lt_stop,
        hrule.exists_copies hb⟩

-- A block whose second line is a rule: its closer and the rule are tagged.
theorem tagged_in_comment_rule :
    let profile := Profile.builtinC.prepared
    let buf := Buffer.ofChars "/* A\n *****\n */\nint a;\n".toList
    let tags := (scan buf profile (.empty buf) .never 0).tags
    let cs : List Candidate := [⟨1, 4, false, false, false⟩]
    (scan buf profile (.empty buf) .never 0).outcome = .completed cs ∧
      tags.get 14 = some .delimiter ∧ buf.lineOf 14 = 3 ∧
      ((∃ c ∈ cs, c.containsLine 3 = true ∧
        (Delimits buf profile c.startLine 14 ∨ DelimitsOther buf profile c.startLine 14)) ∨
      ∃ line, Stands buf profile line ∧ (DelimitsNote buf profile line 14 ∨
        ∃ s ∈ blockPair? buf profile line, PassedWithCloser buf line s 14)) ∧
      tags.get 8 = some .decoration ∧
      ∃ c n, 3 ≤ n ∧ buf.slice 6 11 = List.replicate n c := by
  intro profile buf tags cs
  have h : (scan buf profile (.empty buf) .never 0).outcome = .completed cs := by decide +kernel
  have hp : ∀ s ∈ profile.commentSymbols, Unbroken s.toList := by decide +kernel
  have hd : tags.get 14 = some .delimiter := by decide +kernel
  have hr : tags.get 8 = some .decoration := by decide +kernel
  have hline : buf.lineOf 14 = 3 := by decide +kernel
  have hrule : buf.lineOf 8 = 2 := by decide +kernel
  have hcontent : lineContent buf tags 2 = ⟨6, 11⟩ := by decide +kernel
  have hdelimiter := (tagged_in_comment _ profile hp h 14).1 hd
  obtain ⟨-, -, -, c, n, -, hn, hcopies⟩ := (tagged_in_comment _ profile hp h 8).2 hr
  have hcopies : buf.slice (lineContent buf tags (buf.lineOf 8)).start
      (lineContent buf tags (buf.lineOf 8)).stop = List.replicate n c := hcopies
  rw [hrule, hcontent] at hcopies
  exact ⟨h, hd, hline, by rwa [← hline], hr, c, n, hn, hcopies⟩

-- A note to a checker is no candidate, but its opener and its closer are tagged; so is the third
-- sign on the second line of a Javadoc comment that goes on with two; and so is the line break on
-- the line behind a comment whose closer has three bytes.
theorem tagged_outside_comment :
    (let buf := Buffer.ofChars "/*@null@*/\n".toList
      let s := scan buf Profile.builtinC.prepared (.empty buf) .never 0
      s.outcome = .completed [] ∧ s.tags.get 0 = some .delimiter ∧
        s.tags.get 6 = some .delimiter) ∧
    (let buf := Buffer.ofChars "/// a\n/// b\n// c\n".toList
      let s := scan buf Profile.builtinC.prepared (.empty buf) .never 0
      s.outcome = .completed [⟨1, 4, true, true, false⟩] ∧
        chosenPair? buf Profile.builtinC.prepared 1 = some ⟨"///", "//"⟩ ∧
          buf.skip? (lineFirst buf 2) "//" false = some 8 ∧ s.tags.get 8 = some .delimiter) ∧
    (let buf := Buffer.ofChars "/* a €\n\n\nint x;\n".toList
      let s := scan buf { Profile.plain with blockComments := [⟨"/*", "€"⟩] } (.empty buf) .never 0
      s.outcome = .completed [⟨1, 2, false, false, false⟩] ∧ buf.lineOf 7 = 2 ∧
        s.tags.get 7 = some .delimiter) := by
  decide +kernel

end Comment
end SourceDocs

import SourceDocs.Proofs.Comment.Tagged

namespace SourceDocs

open Token (Kind)

namespace Buffer

def BlanksApart (buf : Buffer) : Prop :=
  ∀ k, buf.isBlank k = true → buf.isBlank (k + 1) = false

theorem blanksApart_ofChars (cs : List Char) : (ofChars cs).BlanksApart := by
  intro k hk
  obtain ⟨t, ht, hkind⟩ := isBlank_iff.mp hk
  rw [Bool.eq_false_iff]
  intro hnext
  obtain ⟨u, hu, hkind'⟩ := isBlank_iff.mp hnext
  have htokens : (ofChars cs).tokens = (Token.scan cs).toArray := rfl
  rw [htokens, List.getElem?_toArray, List.getElem?_eq_some_iff] at ht hu
  obtain ⟨hlt, rfl⟩ := hu
  obtain ⟨_, rfl⟩ := ht
  have hapart := List.isChain_iff_getElem.mp (Token.scan_canonical cs).apart k hlt
  exact hapart.blank hkind hkind'

theorem spells_replicate {buf : Buffer} {i n : Nat} {c : Char}
    (h : ∀ k, i ≤ k → k < i + n → buf.isChar k c = true) :
    buf.spells i (List.replicate n c) = true := by
  induction n generalizing i
  case zero => rfl
  case succ n hi =>
    rw [List.replicate_succ, spells, h i (Nat.le_refl _) (by omega), Bool.true_and]
    exact hi fun k hk hk' => h k (by omega) (by omega)

end Buffer

namespace Comment

variable {buf : Buffer} {tags : Tags} {d : Span} {line l i j k : Nat} {closer : String}

theorem lineFirst_mono (hl : 1 ≤ line) (hlm : line ≤ l) (hm : l ≤ buf.lineCount) :
    lineFirst buf line ≤ lineFirst buf l := by
  rcases Nat.lt_or_eq_of_le hlm with hlt | rfl
  case inr => exact Nat.le_refl _
  case inl =>
    calc lineFirst buf line
      _ ≤ lineStop buf line := (lineFirst_bounds hl (hlm.trans hm)).2
      _ ≤ buf.lineStart (line + 1) := lineStop_le_lineEnd buf line
      _ ≤ buf.lineStart l := lineStart_mono (Nat.succ_pos _) hlt (Nat.le_succ_of_le hm)
      _ ≤ lineFirst buf l := (lineFirst_bounds (hl.trans hlm) hm).1

-- The content of a line is cut out between the delimiters up to `first` and those from `last` on,
-- with blanks around it.
structure LineCut (buf : Buffer) (tags : Tags) (line first last : Nat) : Prop where
  le_first : lineFirst buf line ≤ first
  first_le : first ≤ (lineContent buf tags line).start
  stop_le : (lineContent buf tags line).stop ≤ last
  last_le : last ≤ lineStop buf line
  before : ∀ k, lineFirst buf line ≤ k → k < first → tags.get k = some .delimiter
  first_free : first < lineStop buf line → tags.get first ≠ some .delimiter
  blanks_before : ∀ k, first ≤ k → k < (lineContent buf tags line).start → buf.isBlank k = true
  behind : ∀ k, last ≤ k → k < lineStop buf line → tags.get k = some .delimiter
  last_free : (lineContent buf tags line).start < last → tags.get (last - 1) ≠ some .delimiter
  blanks_behind : ∀ k, (lineContent buf tags line).stop ≤ k → k < last → buf.isBlank k = true

theorem exists_lineCut (buf : Buffer) (tags : Tags) (line : Nat) :
    ∃ first last, LineCut buf tags line first last := by
  let isDelimiter (i : Nat) : Bool := tags.get i = some .delimiter
  let first := Buffer.seek (!isDelimiter ·) (lineFirst buf line) (lineStop buf line)
  let start := buf.afterBlanks first (lineStop buf line)
  refine ⟨first, Buffer.retreat isDelimiter start (lineStop buf line), Buffer.le_seek ..,
    Buffer.le_afterBlanks .., Buffer.beforeBlanks_le .., Buffer.retreat_le .., fun k hk hk' => ?_,
    fun h => ?_, fun k hk hk' => Buffer.isBlank_of_lt_afterBlanks hk hk', fun k hk hk' => ?_,
    fun h => ?_, fun k hk hk' => Buffer.of_retreat_le hk hk'⟩
  · simpa [isDelimiter] using Buffer.not_of_lt_seek hk hk'
  · simpa [isDelimiter] using Buffer.of_seek_lt h
  · simpa [isDelimiter] using Buffer.of_retreat_le hk hk'
  · have hfree : isDelimiter (Buffer.retreat isDelimiter start (lineStop buf line) - 1) = false :=
      Buffer.not_of_lt_retreat h
    simpa [isDelimiter] using hfree

theorem lineContent_bounds (tags : Tags) (hl : 1 ≤ line) (hl' : line ≤ buf.lineCount) :
    buf.lineStart line ≤ (lineContent buf tags line).start ∧
      (lineContent buf tags line).stop ≤ buf.lineEnd line := by
  obtain ⟨first, last, h⟩ := exists_lineCut buf tags line
  have := (lineFirst_bounds hl hl').1
  have := lineStop_le_lineEnd buf line
  exact ⟨by have := h.le_first; have := h.first_le; omega,
    by have := h.stop_le; have := h.last_le; omega⟩

-- Before the content of a line there are delimiters and blanks.
theorem isBlank_of_lt_lineContent (hk : buf.lineStart line ≤ k)
    (hk' : k < (lineContent buf tags line).start) (hn : tags.get k ≠ some .delimiter) :
    buf.isBlank k = true := by
  obtain ⟨first, last, h⟩ := exists_lineCut buf tags line
  rcases Nat.lt_or_ge k (lineFirst buf line) with hlt | hge
  case inl => exact Buffer.isBlank_of_lt_afterBlanks hk hlt
  case inr =>
    rcases Nat.lt_or_ge k first with hlt | hge'
    case inl => exact absurd (h.before k hge hlt) hn
    case inr => exact h.blanks_before k hge' hk'

-- Behind it there are blanks and delimiters, and the line break.
theorem isBlank_of_lineContent_le (hl : 1 ≤ line) (hl' : line ≤ buf.lineCount)
    (hk : (lineContent buf tags line).stop ≤ k) (hk' : k < buf.lineEnd line)
    (hn : tags.get k ≠ some .delimiter) (hb : buf.isLineBreak k = false) :
    buf.isBlank k = true := by
  obtain ⟨first, last, h⟩ := exists_lineCut buf tags line
  rcases Nat.lt_or_ge k last with hlt | hge
  case inl => exact h.blanks_behind k hk hlt
  case inr =>
    rcases Nat.lt_or_ge k (lineStop buf line) with hlt | hge'
    case inl => exact absurd (h.behind k hge hlt) hn
    case inr =>
      rw [isLineBreak_of_lineStop_le hl hl' hge' hk'] at hb
      cases hb

namespace InRule

theorem lineFirst_le (h : InRule buf tags line k) : lineFirst buf line ≤ k :=
  (Buffer.le_seek ..).trans ((buf.le_afterBlanks ..).trans h.start_le)

theorem lt_lineStop (h : InRule buf tags line k) : k < lineStop buf line :=
  h.lt_stop.trans_le ((buf.beforeBlanks_le ..).trans (Buffer.retreat_le ..))

theorem lt_lineStart (h : InRule buf tags line k) (hlm : line < l) (hm : l ≤ buf.lineCount + 1) :
    k < buf.lineStart l :=
  calc k
    _ < lineStop buf line := h.lt_lineStop
    _ ≤ buf.lineStart (line + 1) := lineStop_le_lineEnd buf line
    _ ≤ buf.lineStart l := lineStart_mono (Nat.succ_pos _) hlm hm

-- Delimiters that take a line from its beginning stand before its content.
theorem exists_not_delimiter (h : InRule buf tags line k) :
    ∃ q, lineFirst buf line ≤ q ∧ q ≤ k ∧ tags.get q ≠ some .delimiter := by
  obtain ⟨first, last, hcut⟩ := exists_lineCut buf tags line
  have hle : first ≤ k := hcut.first_le.trans h.start_le
  exact ⟨first, hcut.le_first, hle, hcut.first_free (hle.trans_lt h.lt_lineStop)⟩

theorem exists_isChar (h : InRule buf tags line k) : ∃ c,
    (lineContent buf tags line).start + 3 ≤ (lineContent buf tags line).stop ∧
      ∀ q, (lineContent buf tags line).start ≤ q → q < (lineContent buf tags line).stop →
        buf.isChar q c = true := by
  have hrule := h.rule
  unfold isRule at hrule
  split at hrule
  case h_2 => cases hrule
  case h_1 c hc =>
    simp only [Bool.and_eq_true, decide_eq_true_eq, List.all_eq_true, List.mem_range'_1] at hrule
    exact ⟨c, hrule.1, fun q hq hq' => hrule.2 q ⟨hq, by omega⟩⟩

end InRule

-- On the line of the closer the search starts at its beginning, or behind the opener.
theorem not_matchesAt_of_findCloser? {p : Nat × Nat} (hl : 1 ≤ line) (hl' : line ≤ buf.lineCount)
    (h : findCloser? buf closer line i = some p) (hi : i ≤ k) (hk : lineFirst buf p.1 ≤ k)
    (hk' : k < p.2) : buf.matchesAt k closer = false := by
  fun_induction findCloser? buf closer line i
  case case1 =>
    cases h
    exact Buffer.not_of_lt_seek hi hk'
  case case2 line i stop j hj hlt ih =>
    have hbounds := findCloser?_bounds hlt h
    exact ih (Nat.succ_pos _) hlt h ((lineFirst_mono (Nat.succ_pos _) hbounds.1 hbounds.2).trans hk)
  case case3 => cases h

-- A closer that was looked for from `start` on, with nothing but blanks behind it on the line
-- `last`.
structure IsCloser (buf : Buffer) (line start : Nat) (closer : String) (last : Nat) (d : Span) :
    Prop where
  found : findCloser? buf closer line start = some (last, d.start)
  stop_eq : d.stop = buf.afterChars d.start closer.utf8ByteSize
  rest : isLineRest buf last d.stop = true

namespace IsCloser

variable {start last : Nat} (h : IsCloser buf line start closer last d)

include h

theorem exists_matchLength? : ∃ n, buf.matchLength? d.start closer false = some n ∧
    d.start + n ≤ d.stop := by
  obtain ⟨n, hn⟩ := Option.isSome_iff_exists.mp (matchesAt_of_findCloser? h.found)
  refine ⟨n, hn, ?_⟩
  rw [h.stop_eq, Buffer.afterChars_of_matchLength? hn]
  exact buf.le_afterChars ..

section OnLine

variable (hb : buf.WellFormed) (hl : 1 ≤ line) (hl' : line ≤ buf.lineCount)
  (hstart : buf.lineStart line ≤ start)

include hl hl' hstart

theorem on_line : 1 ≤ last ∧ last ≤ buf.lineCount ∧ buf.lineStart last ≤ d.start :=
  have ⟨hpos, hlast, hfirst, _⟩ := findCloser?_on_line hl hl' hstart h.found
  ⟨hpos, hlast, hfirst⟩

include hb

theorem isBlank (hk : d.stop ≤ k) (hk' : k < lineStop buf last) : buf.isBlank k = true := by
  obtain ⟨hpos, hlast, hfirst⟩ := h.on_line hl hl' hstart
  have hle : d.start ≤ d.stop := h.stop_eq ▸ buf.le_afterChars ..
  have hsize := (lineStop_le_lineEnd buf last).trans (Buffer.lineEnd_le_size hpos hlast)
  have hrest := (isLineRest_iff hb hpos hlast (hfirst.trans hle) (by omega)).mp h.rest
  exact (hb.isSpace_slice_iff hsize).mp hrest k hk hk'

variable (hd : ∀ q, d.start ≤ q → q < d.stop → q < lineStop buf last →
    tags.get q = some .delimiter)

include hd

theorem lt_start (hj : InRule buf tags last j) (hfree : tags.get j ≠ some .delimiter) :
    j < d.start := by
  obtain ⟨c, -, hall⟩ := hj.exists_isChar
  by_contra hle
  rcases Nat.lt_or_ge j d.stop with hlt | hge
  case inl => exact hfree (hd j (Nat.le_of_not_lt hle) hlt hj.lt_lineStop)
  case inr =>
    have hblank := h.isBlank hb hl hl' hstart hge hj.lt_lineStop
    simp [Buffer.not_isBlank_of_isChar (hall j hj.start_le hj.lt_stop)] at hblank

-- The blanks behind the closer are not part of it, so it is where the rule would end.
theorem stop_lineContent (ha : buf.BlanksApart) (hk : InRule buf tags last k)
    (hdk : d.start ≤ k ∧ k < d.stop) : (lineContent buf tags last).stop = d.stop := by
  obtain ⟨c, -, hall⟩ := hk.exists_isChar
  obtain ⟨first, stop, hcut⟩ := exists_lineCut buf tags last
  have hstop := hk.lt_stop.trans_le hcut.stop_le
  have hlast := hcut.last_le
  have hbehind : d.stop ≤ stop - 1 := by
    by_contra hlt
    exact hcut.last_free (hk.start_le.trans_lt hstop) (hd _ (by omega) (by omega) (by omega))
  have hk_start := hk.start_le
  have hk_stop := hk.lt_stop
  refine Nat.le_antisymm ?le ?ge
  case le =>
    by_contra hlt
    have hblank : buf.isBlank ((lineContent buf tags last).stop - 1) = true :=
      h.isBlank hb hl hl' hstart (by omega) (by have := hcut.stop_le; omega)
    have hchar := hall ((lineContent buf tags last).stop - 1) (by omega) (by omega)
    simp [Buffer.not_isBlank_of_isChar hchar] at hblank
  case ge =>
    by_contra hlt
    have hblank := hcut.blanks_behind (d.stop - 1) (by omega) (by omega)
    have hnext := hcut.blanks_behind d.stop (by omega) (by omega)
    have hapart := ha _ hblank
    rw [Nat.sub_add_cancel (by omega), hnext] at hapart
    cases hapart

-- A closer in a rule consists of the symbol of the rule, and so it would be found one place before.
theorem not_in_rule (ha : buf.BlanksApart) (hj : InRule buf tags last j)
    (hfree : tags.get j ≠ some .delimiter) (hs : start ≤ j) (hk : InRule buf tags last k) :
    ¬(d.start ≤ k ∧ k < d.stop) := by
  intro hdk
  obtain ⟨c, -, hall⟩ := hj.exists_isChar
  have hlt := h.lt_start hb hl hl' hstart hd hj hfree
  have hstop := h.stop_lineContent hb hl hl' hstart hd ha hk hdk
  obtain ⟨n, hn, hle⟩ := h.exists_matchLength?
  have hj_start := hj.start_le
  have hcloser : closer.toList = List.replicate n c := by
    have hchars := hb.slice_eq_replicate (i := d.start) (j := d.start + n)
      fun q hq hq' => hall q (by omega) (by omega)
    rw [Buffer.matchLength?, if_neg (buf.ne_nil_of_matchLength? hn)] at hn
    rw [← Buffer.slice_of_cover? hn, hchars, Nat.add_sub_cancel_left]
  have hpos := buf.matchLength?_pos hn
  have hsymbol : Kind.ofChar c = .symbol := hb.ofChar_of_isChar (hall j hj.start_le hj.lt_stop)
  have hbefore : buf.matchesAt (d.start - 1) closer = true := by
    rw [Buffer.matchesAt_symbols hb (by simp [hcloser, hsymbol]), hcloser,
      Buffer.spells_replicate fun q hq hq' => hall q (by omega) (by omega)]
    simpa using Nat.ne_of_gt hpos
  obtain ⟨cut, stop, hcut⟩ := exists_lineCut buf tags last
  have hfirst : lineFirst buf last ≤ d.start - 1 := by
    have := hcut.le_first
    have := hcut.first_le
    omega
  have hnone := not_matchesAt_of_findCloser? hl hl' h.found (hs.trans (by omega)) hfirst
    (Nat.sub_one_lt (Nat.ne_of_gt (Nat.zero_lt_of_lt hlt)))
  rw [hbefore] at hnone
  cases hnone

end OnLine

end IsCloser

end Comment
end SourceDocs

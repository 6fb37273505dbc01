import SourceDocs.Proofs.Cancellation
import SourceDocs.Proofs.Comment.Rescan
import SourceDocs.Prototype.Search

namespace SourceDocs

namespace Buffer

variable {buf : Buffer} {line endLine i : Nat}

structure IsFirstCode (buf : Buffer) (first i : Nat) : Prop where
  le : first ≤ i
  lt_size : i < buf.size
  not_blank : buf.isBlank i = false
  not_break : buf.isLineBreak i = false
  before : ∀ k, first ≤ k → k < i → buf.isBlank k = true ∨ buf.isLineBreak k = true

theorem lineStart_le_lineStart (hl : 1 ≤ line) (h : line ≤ endLine) :
    buf.lineStart line ≤ buf.lineStart endLine := by
  rcases Nat.lt_or_ge buf.lineCount endLine with hlt | hle
  case inr => exact Comment.lineStart_mono hl h (Nat.le_succ_of_le hle)
  case inl =>
    rw [lineStart_of_lt hlt]
    rcases Nat.lt_or_ge buf.lineCount line with hlt | hle
    case inl => exact Nat.le_of_eq (lineStart_of_lt hlt)
    case inr => exact (lineStart_le_lineEnd hl hle).trans (lineEnd_le_size hl hle)

theorem seek_mono {p : Nat → Bool} {j stop : Nat} (h : i ≤ j) : seek p i stop ≤ seek p j stop := by
  have hj := le_seek p j stop
  rcases Nat.lt_or_ge (seek p j stop) stop with hlt | hge
  case inl => exact seek_le_of_hit (by omega) (of_seek_lt hlt)
  case inr =>
    rcases Nat.le_total i stop with hle | hle
    case inl => exact (seek_le p hle).trans hge
    case inr =>
      rw [seek_end hle]
      omega

-- Blanks end at the latest with their line, which is where the line break stands.
theorem afterBlanks_lt_lineEnd (hl : 1 ≤ line) (hl' : line < buf.lineCount) :
    buf.afterBlanks (buf.lineStart line) buf.size < buf.lineEnd line := by
  obtain ⟨k, hend, hk⟩ := isLineBreak_before hl hl'
  have hlt : buf.lineStart line < buf.lineEnd line := lineStart_lt hl (Nat.lt_add_one line) hl'
  by_contra hle
  have hblank := isBlank_of_lt_afterBlanks (i := buf.lineStart line) (k := k) (by omega)
    (show k < buf.afterBlanks (buf.lineStart line) buf.size by omega)
  simp only [isBlank, isLineBreak, decide_eq_true_eq] at hblank hk
  simp [hblank] at hk

theorem afterBlanks_le_lineEnd (hl : 1 ≤ line) (hl' : line ≤ buf.lineCount) :
    buf.afterBlanks (buf.lineStart line) buf.size ≤ buf.lineEnd line := by
  rcases Nat.lt_or_eq_of_le hl' with hlt | rfl
  case inl => exact Nat.le_of_lt (afterBlanks_lt_lineEnd hl hlt)
  case inr =>
    rw [lineEnd_lineCount]
    exact buf.afterBlanks_le ((lineStart_le_lineEnd hl hl').trans_eq buf.lineEnd_lineCount)

-- What a line has before its first code is blank, or the line is empty.
theorem blank_before_lineEnd (hl : 1 ≤ line) (hl' : line ≤ buf.lineCount)
    (h : ¬(buf.afterBlanks (buf.lineStart line) buf.size < buf.size ∧
      !buf.isLineBreak (buf.afterBlanks (buf.lineStart line) buf.size)))
    {k : Nat} (hk : buf.lineStart line ≤ k) (hk' : k < buf.lineEnd line) :
    buf.isBlank k = true ∨ buf.isLineBreak k = true := by
  have hsize := lineEnd_le_size hl hl'
  have hle := buf.le_afterBlanks (buf.lineStart line) buf.size
  have hle' := afterBlanks_le_lineEnd hl hl'
  generalize hfirst : buf.afterBlanks (buf.lineStart line) buf.size = first at h hle hle'
  rcases Nat.lt_or_ge k first with hlt | hge
  case inl => exact .inl (isBlank_of_lt_afterBlanks hk (hfirst ▸ hlt))
  case inr =>
    have hbreak : buf.isLineBreak first = true := by
      by_contra hn
      exact h ⟨by omega, by simpa using hn⟩
    have hend := (lineEnd_eq_of_isLineBreak hl' hle (by omega) hbreak).1
    obtain rfl : k = first := by omega
    exact .inr hbreak

end Buffer

namespace Prototype

variable {profile : Profile} {buf : Buffer} {enders : Enders}
  {line startLine endLine endLine' : Nat}

-- The end of a search: the first position from the beginning of its end line on that holds no
-- blank.
def searchLimit (buf : Buffer) (endLine : Nat) : Nat :=
  buf.afterBlanks (buf.lineStart endLine) buf.size

def searchEnd (buf : Buffer) (rest : List Comment.Candidate) : Nat :=
  (rest.head?.map (·.startLine)).getD (buf.lineCount + 1)

theorem codeStart?_of_le (h : endLine ≤ endLine') {start : Nat}
    (hs : codeStart? buf endLine line = some start) :
    codeStart? buf endLine' line = some start := by
  fun_induction codeStart? buf endLine line
  case case1 line hl first hf => rw [codeStart?, if_pos ⟨by omega, hl.2⟩, if_pos hf, hs]
  case case2 line hl first hf ih => rw [codeStart?, if_pos ⟨by omega, hl.2⟩, if_neg hf, ih hs]
  case case3 => cases hs

theorem codeStart?_zero (h : 0 < endLine) :
    codeStart? buf endLine 0 = codeStart? buf endLine 1 := by
  have hfirst : buf.afterBlanks (buf.lineStart 0) buf.size = buf.size :=
    Buffer.seek_end (Nat.le_refl _)
  rw [codeStart?, if_pos ⟨h, Nat.zero_le _⟩, if_neg]
  rw [hfirst]
  omega

theorem isFirstCode_codeStart? (hl : 1 ≤ line) {start : Nat}
    (hs : codeStart? buf endLine line = some start) :
    buf.IsFirstCode (buf.lineStart line) start ∧ start < buf.lineStart endLine := by
  fun_induction codeStart? buf endLine line
  case case1 line hlt first hf =>
    obtain rfl := Option.some.inj hs
    have hbreak : buf.isLineBreak first = false := by simpa using hf.2
    refine ⟨⟨buf.le_afterBlanks .., hf.1, Buffer.not_isBlank_afterBlanks hf.1, hbreak,
      fun k hk hk' => .inl (Buffer.isBlank_of_lt_afterBlanks hk hk')⟩, ?_⟩
    have hend : buf.lineEnd line ≤ buf.lineStart endLine :=
      Buffer.lineStart_le_lineStart (Nat.succ_pos line) hlt.1
    rcases Nat.lt_or_eq_of_le hlt.2 with hmore | rfl
    case inl => exact (Buffer.afterBlanks_lt_lineEnd hl hmore).trans_le hend
    case inr => exact (hf.1.trans_eq buf.lineEnd_lineCount.symm).trans_le hend
  case case2 line hlt first hf ih =>
    have ⟨hcode, hstop⟩ := ih (Nat.succ_pos line) hs
    have hle := Buffer.lineStart_le_lineEnd hl hlt.2
    refine ⟨{ hcode with le := hle.trans hcode.le, before := fun k hk hk' => ?_ }, hstop⟩
    rcases Nat.lt_or_ge k (buf.lineStart (line + 1)) with hlt' | hge
    case inl => exact Buffer.blank_before_lineEnd hl hlt.2 hf hk hlt'
    case inr => exact hcode.before k hge hk'
  case case3 => cases hs

section Steps

variable {limit limit' i j n m : Nat} {extended : Bool} {signal : Signal}

theorem findEnder_lineBreak (hi : i < limit) (hb : buf.isLineBreak i = true) :
    findEnder profile buf enders limit extended i = Poll.check >>= fun _ =>
      if enders.lineBreaks && !extended then pure (some i)
      else findEnder profile buf enders limit false (i + 1) := by
  rw [findEnder, if_pos hi, if_pos hb]

theorem findEnder_extender (hi : i < limit) (hb : ¬buf.isLineBreak i = true) {s : String}
    (hs : extender? profile buf i = some s) :
    findEnder profile buf enders limit extended i =
      findEnder profile buf enders limit (extended || !isInIdentifier buf i s)
        (buf.afterChars i s.utf8ByteSize) := by
  rw [findEnder, if_pos hi, if_neg hb]
  split
  case h_1 h => cases hs.symm.trans h; rfl
  case h_2 h => cases hs.symm.trans h

theorem findEnder_ender (hi : i < limit) (hb : ¬buf.isLineBreak i = true)
    (hs : extender? profile buf i = none) (he : endsAt profile buf enders i = true) :
    findEnder profile buf enders limit extended i = pure (some i) := by
  rw [findEnder, if_pos hi, if_neg hb]
  split
  case h_1 h => cases hs.symm.trans h
  case h_2 => rw [if_pos he]

theorem findEnder_enclosed (hi : i < limit) (hb : ¬buf.isLineBreak i = true)
    (hs : extender? profile buf i = none) (he : ¬endsAt profile buf enders i = true)
    (hj : Skip.enclosed? profile buf false i = some j) :
    findEnder profile buf enders limit extended i =
      findEnder profile buf enders limit extended j := by
  rw [findEnder, if_pos hi, if_neg hb]
  split
  case h_1 h => cases hs.symm.trans h
  case h_2 =>
    rw [if_neg he]
    split
    case h_1 h => cases hj.symm.trans h; rfl
    case h_2 h => cases hj.symm.trans h

theorem findEnder_other (hi : i < limit) (hb : ¬buf.isLineBreak i = true)
    (hs : extender? profile buf i = none) (he : ¬endsAt profile buf enders i = true)
    (hj : Skip.enclosed? profile buf false i = none) :
    findEnder profile buf enders limit extended i =
      findEnder profile buf enders limit extended (i + 1) := by
  rw [findEnder, if_pos hi, if_neg hb]
  split
  case h_1 h => cases hs.symm.trans h
  case h_2 =>
    rw [if_neg he]
    split
    case h_1 h => cases hj.symm.trans h
    case h_2 => rfl

-- A search goes the same way up to its limit, so what it finds before the limit it finds anyway.
theorem findEnder_of_le (h : limit ≤ limit')
    (hf : findEnder profile buf enders limit extended i signal n = (.completed (some j), m)) :
    findEnder profile buf enders limit' extended i signal n = (.completed (some j), m) := by
  fun_induction findEnder profile buf enders limit extended i generalizing n
  case case1 hi hb ih =>
    rw [findEnder_lineBreak (by omega) hb, Poll.check_bind_apply]
    rw [Poll.check_bind_apply] at hf
    split
    case isTrue hs =>
      rw [if_pos hs] at hf
      cases hf
    case isFalse hs =>
      rw [if_neg hs] at hf
      split
      case isTrue he => rwa [if_pos he] at hf
      case isFalse he =>
        rw [if_neg he] at hf
        exact ih hf
  case case2 hi hb s hs ih => rw [findEnder_extender (by omega) hb hs, ih hf]
  case case3 hi hb hs he => rwa [findEnder_ender (by omega) hb hs he]
  case case4 hi hb hs he j hj ih => rw [findEnder_enclosed (by omega) hb hs he hj, ih hf]
  case case5 hi hb hs he hj ih => rw [findEnder_other (by omega) hb hs he hj, ih hf]
  case case6 => cases hf

theorem findEnder_bounds
    (hf : findEnder profile buf enders limit extended i signal n = (.completed (some j), m)) :
    i ≤ j ∧ j < limit := by
  fun_induction findEnder profile buf enders limit extended i generalizing n
  case case1 hi hb ih =>
    rw [Poll.check_bind_apply] at hf
    split at hf
    case isTrue => cases hf
    case isFalse =>
      split at hf
      case isTrue =>
        cases hf
        exact ⟨Nat.le_refl _, hi⟩
      case isFalse =>
        have := ih hf
        omega
  case case2 hs ih =>
    have := lt_afterChars_of_extender? profile buf hs
    have := ih hf
    omega
  case case3 hi _ _ _ =>
    cases hf
    exact ⟨Nat.le_refl _, hi⟩
  case case4 hj ih =>
    have := Skip.lt_enclosed? profile buf hj
    have := ih hf
    omega
  case case5 ih =>
    have := ih hf
    omega
  case case6 => cases hf

end Steps

section Spans

variable {signal : Signal} {start stop n m : Nat}

theorem span_of_codeStart? (h : codeStart? buf endLine startLine = some start) :
    span profile buf enders startLine endLine =
      findEnder profile buf enders (searchLimit buf endLine) false start >>= fun ender =>
        pure <| ender.bind fun i =>
          if start < buf.beforeBlanks start i then some (start, buf.beforeBlanks start i)
          else none := by
  rw [span, h]
  rfl

theorem span_eq_some_iff :
    span profile buf enders startLine endLine signal n = (.completed (some (start, stop)), m) ↔
      codeStart? buf endLine startLine = some start ∧ start < stop ∧
        ∃ i, stop = buf.beforeBlanks start i ∧
          findEnder profile buf enders (searchLimit buf endLine) false start signal n =
            (.completed (some i), m) := by
  cases hc : codeStart? buf endLine startLine
  case none =>
    rw [span, hc]
    simp [Poll.pure_apply]
  case some first =>
    rw [span_of_codeStart? hc]
    constructor
    case mp =>
      intro h
      rcases hf : findEnder profile buf enders (searchLimit buf endLine) false first signal n with
        ⟨(_ | i) | _, k⟩
      case completed.none => simp [Poll.bind_completed hf, Poll.pure_apply] at h
      case cancelled => simp [Poll.bind_cancelled hf] at h
      case completed.some =>
        simp only [Poll.bind_completed hf, Poll.pure_apply, Option.bind_some, Prod.mk.injEq,
          Outcome.completed.injEq, Option.ite_none_right_eq_some, Option.some.injEq] at h
        obtain ⟨⟨hlt, rfl, rfl⟩, rfl⟩ := h
        exact ⟨rfl, hlt, i, rfl, hf⟩
    case mpr =>
      rintro ⟨hfirst, hlt, i, rfl, hf⟩
      cases hfirst
      simp [Poll.bind_completed hf, Poll.pure_apply, hlt]

theorem searchLimit_mono (hl : 1 ≤ endLine) (h : endLine ≤ endLine') :
    searchLimit buf endLine ≤ searchLimit buf endLine' :=
  Buffer.seek_mono (Buffer.lineStart_le_lineStart hl h)

theorem lt_of_codeStart? (hs : codeStart? buf endLine line = some start) : line < endLine := by
  rw [codeStart?] at hs
  split at hs
  case isTrue h => exact h.1
  case isFalse => cases hs

theorem span_of_le (h : endLine ≤ endLine') {p : Nat × Nat}
    (hs : span profile buf enders startLine endLine signal n = (.completed (some p), m)) :
    span profile buf enders startLine endLine' signal n = (.completed (some p), m) := by
  obtain ⟨hc, hlt, i, hi, hf⟩ := span_eq_some_iff.mp hs
  have := lt_of_codeStart? hc
  exact span_eq_some_iff.mpr
    ⟨codeStart?_of_le h hc, hlt, i, hi, findEnder_of_le (searchLimit_mono (by omega) h) hf⟩

theorem span_bounds
    (hs : span profile buf enders startLine endLine signal n =
      (.completed (some (start, stop)), m)) :
    start < stop ∧ stop ≤ searchLimit buf endLine ∧
      buf.IsFirstCode (buf.lineStart (max startLine 1)) start ∧ start < buf.lineStart endLine := by
  obtain ⟨hc, hlt, i, rfl, hf⟩ := span_eq_some_iff.mp hs
  have hstop := buf.beforeBlanks_le start i
  have hend := (findEnder_bounds hf).2
  refine ⟨hlt, by omega, ?_⟩
  rcases Nat.eq_zero_or_pos startLine with rfl | hpos
  case inl =>
    rw [codeStart?_zero (lt_of_codeStart? hc)] at hc
    exact isFirstCode_codeStart? (Nat.le_refl 1) hc
  case inr =>
    rw [Nat.max_eq_left hpos]
    exact isFirstCode_codeStart? hpos hc

end Spans

theorem find_of_le (h : endLine ≤ endLine') {title cs : List Char} {signal : Signal} {n m : Nat}
    (hf : find profile buf title enders startLine endLine signal n = (.completed (some cs), m)) :
    find profile buf title enders startLine endLine' signal n = (.completed (some cs), m) := by
  unfold find at hf ⊢
  rcases hs : span profile buf enders startLine endLine signal n with ⟨(_ | p) | _, k⟩
  case completed.none => simp [Poll.bind_completed hs, Poll.pure_apply] at hf
  case cancelled => simp [Poll.bind_cancelled hs] at hf
  case completed.some =>
    rw [Poll.bind_completed hs] at hf
    rwa [Poll.bind_completed (span_of_le h hs)]

variable {c d : Comment.Candidate} {between rest : List Comment.Candidate}

-- The search for a comment ends on the first line of the next one, which is before the end of that
-- one and of every later one.
theorem searchEnd_lt (hfits : ∀ e ∈ between ++ d :: rest, e.Fits buf)
    (hpairs : (between ++ d :: rest).Pairwise (·.endLine ≤ ·.startLine)) :
    1 ≤ searchEnd buf (between ++ d :: rest) ∧
      searchEnd buf (between ++ d :: rest) < d.endLine ∧ d.endLine ≤ buf.lineCount + 1 := by
  have hd := hfits d (by simp)
  cases between
  case nil => exact ⟨hd.one_le, hd.lt, hd.le⟩
  case cons e between =>
    have he := hfits e (by simp)
    have hlt := he.lt
    have hle : e.endLine ≤ d.startLine := List.rel_of_pairwise_cons hpairs (by simp)
    have := hd.lt
    exact ⟨he.one_le, show e.startLine < d.endLine by omega, hd.le⟩

theorem searchLimit_le_lineStart (hfits : ∀ e ∈ between ++ d :: rest, e.Fits buf)
    (hpairs : (between ++ d :: rest).Pairwise (·.endLine ≤ ·.startLine)) :
    searchLimit buf (searchEnd buf (between ++ d :: rest)) ≤ buf.lineStart d.endLine := by
  have ⟨hpos, hlt, hle⟩ := searchEnd_lt hfits hpairs
  generalize searchEnd buf (between ++ d :: rest) = line at hpos hlt
  calc searchLimit buf line
    _ ≤ buf.lineEnd line := Buffer.afterBlanks_le_lineEnd hpos (by omega)
    _ ≤ buf.lineStart d.endLine := Buffer.lineStart_le_lineStart (Nat.succ_pos line) hlt

-- A search that is not cancelled finds nothing or what it finds in every wider window. What it
-- takes begins with the first code of the window and ends within it, so that for two comments of
-- one file the windows, and what is taken from them, do not meet.
theorem find_in_wider_window (profile : Profile) (buf : Buffer) (title : List Char)
    (enders : Enders) (startLine : Nat) {endLine endLine' : Nat} (h : endLine ≤ endLine') :
    (∃ found, ((find profile buf title enders startLine endLine).run .never).1 = .completed found ∧
      (found = none ∨
        ((find profile buf title enders startLine endLine').run .never).1 = .completed found)) ∧
    (∀ start stop,
      ((span profile buf enders startLine endLine).run .never).1 = .completed (some (start, stop)) →
      start < stop ∧ stop ≤ searchLimit buf endLine ∧
        buf.IsFirstCode (buf.lineStart (max startLine 1)) start ∧ start < buf.lineStart endLine) ∧
    ∀ tags signal n front c between d rest,
      (Comment.scan buf profile tags signal n).outcome =
        .completed (front ++ c :: (between ++ d :: rest)) →
      searchLimit buf (searchEnd buf (between ++ d :: rest)) ≤ buf.lineStart d.endLine ∧
        ∀ enders enders' start stop start' stop',
          ((span profile buf enders c.endLine
              (searchEnd buf (between ++ d :: rest))).run .never).1 =
            .completed (some (start, stop)) →
          ((span profile buf enders' d.endLine (searchEnd buf rest)).run .never).1 =
            .completed (some (start', stop')) →
          stop ≤ start' := by
  -- The number of polls is beside the point.
  have hspan {enders : Enders} {startLine endLine : Nat} {p : Nat × Nat}
      (hs : ((span profile buf enders startLine endLine).run .never).1 = .completed (some p)) :
      ∃ m, span profile buf enders startLine endLine .never 0 = (.completed (some p), m) :=
    ⟨_, Prod.ext hs rfl⟩
  refine ⟨?wider, fun start stop hs => ?bounds,
    fun tags signal n front c between d rest hscan => ?scanned⟩
  case wider =>
    have hobedient := find_obedient profile buf title enders startLine endLine
    obtain ⟨found, hf⟩ := hobedient.run_never_completed
    refine ⟨found, hf, ?_⟩
    cases found
    case none => exact .inl rfl
    case some cs =>
      have := find_of_le (m := (find profile buf title enders startLine endLine .never 0).2) h
        (Prod.ext hf rfl)
      exact .inr (congrArg Prod.fst this)
  case bounds =>
    obtain ⟨m, hs⟩ := hspan hs
    exact span_bounds hs
  case scanned =>
    have ⟨hfits, hpairs⟩ := Comment.ordered_of_completed hscan
    have hfits : ∀ e ∈ between ++ d :: rest, e.Fits buf := fun e he => hfits e (by simp [he])
    have hpairs := (List.pairwise_append.mp hpairs).2.1.of_cons
    have hwindow := searchLimit_le_lineStart hfits hpairs
    refine ⟨hwindow, fun enders enders' start stop start' stop' hs hs' => ?_⟩
    obtain ⟨m, hs⟩ := hspan hs
    obtain ⟨m', hs'⟩ := hspan hs'
    have ⟨_, hstop, _⟩ := span_bounds hs
    have ⟨_, _, hcode, _⟩ := span_bounds hs'
    have hle := hcode.le
    have hd := hfits d (by simp)
    rw [Nat.max_eq_left (hd.one_le.trans (Nat.le_of_lt hd.lt))] at hle
    omega

-- The function is found before the end of its line, and no later line changes that.
theorem find_in_wider_window_function :
    let buf := Buffer.ofChars "\n int f (int a);\nint g;".toList
    let enders : Enders := ⟨[";"], false⟩
    3 ≤ 4 ∧
      ((find .builtinC buf ['f'] enders 1 3).run .never).1 =
        .completed (some "int f (int a)".toList) ∧
      ((find .builtinC buf ['f'] enders 1 4).run .never).1 =
        .completed (some "int f (int a)".toList) := by
  intro buf enders
  have hf : ((find .builtinC buf ['f'] enders 1 3).run .never).1 =
      .completed (some "int f (int a)".toList) := by decide +kernel
  obtain ⟨found, hfound, hsome⟩ :=
    (find_in_wider_window .builtinC buf ['f'] enders 1 (show 3 ≤ 4 by decide)).1
  obtain rfl := Outcome.completed.inj (hf.symm.trans hfound)
  exact ⟨by decide, hf, hsome.resolve_left (by simp)⟩

end Prototype
end SourceDocs

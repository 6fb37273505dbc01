import SourceDocs.Proofs.Lines
import SourceDocs.Proofs.Nesting
import SourceDocs.Profile.Builtin

namespace SourceDocs

namespace Skip

variable {profile : Profile} {buf : Buffer} {i j : Nat} {closer : String}

theorem skip?_eq_none_iff : buf.skip? i closer false = none ↔ buf.matchesAt i closer = false := by
  rw [Buffer.skip?, Option.map_eq_none_iff, Buffer.matchesAt, Option.isSome_eq_false_iff,
    Option.isNone_iff_eq_none]

theorem skip?_of_matchesAt (hb : buf.WellFormed) (hs : IsSymbolic closer)
    (h : buf.matchesAt i closer = true) :
    buf.skip? i closer false = some (i + closer.toList.length) := by
  rw [Buffer.matchesAt_symbols hb hs.2, Bool.and_eq_true] at h
  rw [skip?_eq hb hs, if_pos h.2]

theorem spells_of_matchesAt (hb : buf.WellFormed) (hs : IsSymbolic closer)
    (h : buf.matchesAt i closer = true) : buf.spells i closer.toList = true := by
  rw [Buffer.matchesAt_symbols hb hs.2, Bool.and_eq_true] at h
  exact h.2

end Skip

namespace Comment

variable {profile : Profile} {buf : Buffer} {line i j : Nat} {closer : String}

theorem not_matchesAt_of_isBlank (hb : buf.WellFormed) (hs : IsSymbolic closer)
    (h : buf.isBlank i = true) : buf.matchesAt i closer = false := by
  rw [Bool.eq_false_iff]
  intro hm
  have ⟨c, _, hc⟩ := Skip.exists_isChar_of_matchesAt hb hs hm
  simp [Buffer.not_isBlank_of_isChar hc] at h

theorem not_matchesAt_of_isLineBreak (hb : buf.WellFormed) (hs : IsSymbolic closer)
    (h : buf.isLineBreak i = true) : buf.matchesAt i closer = false := by
  rw [Bool.eq_false_iff]
  intro hm
  have ⟨c, _, hc⟩ := Skip.exists_isChar_of_matchesAt hb hs hm
  simp [Buffer.not_isLineBreak_of_isChar hc] at h

def firstMatch (buf : Buffer) (symbol : String) (i : Nat) : Nat :=
  Buffer.seek (buf.matchesAt · symbol) i buf.size

theorem le_firstMatch : i ≤ firstMatch buf closer i :=
  Buffer.le_seek ..

theorem matchesAt_firstMatch (h : firstMatch buf closer i < buf.size) :
    buf.matchesAt (firstMatch buf closer i) closer = true :=
  Buffer.of_seek_lt h

-- Between the end of a line and what stands on the next one there is no room for a symbol.
theorem findCloser?_eq (hb : buf.WellFormed) (hs : IsSymbolic closer) (hl : 1 ≤ line)
    (hl' : line ≤ buf.lineCount) (hi : buf.lineStart line ≤ i) (hi' : i ≤ lineStop buf line) :
    findCloser? buf closer line i =
      if firstMatch buf closer i < buf.size then
        some (buf.lineOf (firstMatch buf closer i), firstMatch buf closer i)
      else none := by
  have hend := lineStop_le_lineEnd buf line
  have hsize := Buffer.lineEnd_le_size hl hl'
  fun_induction findCloser? buf closer line i
  case case1 line i stop j hj =>
    have hle : i ≤ j := Buffer.le_seek ..
    have hfirst : firstMatch buf closer i = j := by
      rw [firstMatch, Buffer.seek_from (fun k hk hk' => Buffer.not_of_lt_seek hk hk') hle (by omega),
        Buffer.seek_hit (by omega) (Buffer.of_seek_lt hj)]
    rw [hfirst, if_pos (by omega), Buffer.lineOf_eq hl hl' (by omega) (by omega)]
  case case2 line i stop j hj hlt ih =>
    have hj : j = stop := Nat.le_antisymm (Buffer.seek_le _ hi') (Nat.le_of_not_lt hj)
    have ⟨(hnext : buf.lineStart (line + 1) = stop + 1), hbreak⟩ := lineStop_of_lt hl hlt
    have hpos : 1 ≤ line + 1 := Nat.succ_pos line
    have ⟨hfirst, hfirst'⟩ := lineFirst_bounds hpos hlt
    -- The rest of this line, its line break and the blanks before the next one are all in vain.
    have hnone (k : Nat) (hk : i ≤ k) (hk' : k < lineFirst buf (line + 1)) :
        buf.matchesAt k closer = false := by
      rcases Nat.lt_trichotomy k stop with hks | rfl | hks
      · exact Buffer.not_of_lt_seek hk (hj ▸ hks)
      · exact not_matchesAt_of_isLineBreak hb hs hbreak
      · have hblank := Buffer.not_of_lt_seek (hnext.trans_le hks) hk'
        exact not_matchesAt_of_isBlank hb hs (by simpa using hblank)
    have hend' := lineStop_le_lineEnd buf (line + 1)
    have hsize' := Buffer.lineEnd_le_size hpos hlt
    rw [ih hpos hlt hfirst hfirst' hend' hsize',
      show firstMatch buf closer i = firstMatch buf closer (lineFirst buf (line + 1)) from
        Buffer.seek_from hnone (by omega) (by omega)]
  case case3 line i stop j hj hlt =>
    -- The last line ends with the text.
    obtain rfl : line = buf.lineCount := by omega
    rw [if_neg]
    rwa [firstMatch, ← lineStop_lineCount]

-- What a reading goes on with, behind an opener that ends at `i`.
theorem next_readBlock? (hb : buf.WellFormed) {symbols : BlockSymbols} {r : Reading}
    (ho : IsSymbolic symbols.opener) (hc : IsSymbolic symbols.closer) (hl : 1 ≤ line)
    (hl' : line ≤ buf.lineCount) (h : readBlock? buf line symbols false = some r) :
    r.next =
      if firstMatch buf symbols.closer (lineFirst buf line + symbols.opener.toList.length) <
          buf.size then
        buf.lineOf (firstMatch buf symbols.closer
          (lineFirst buf line + symbols.opener.toList.length)) + 1
      else buf.lineCount + 1 := by
  have ⟨hfirst, hstop⟩ := lineFirst_bounds hl hl'
  obtain ⟨i, hi, h⟩ := Option.bind_eq_some_iff.mp h
  have hskip : buf.skip? (lineFirst buf line) symbols.opener false = some i :=
    (Option.filter_eq_some_iff.mp hi).1
  rw [Skip.skip?_eq hb ho] at hskip
  split at hskip
  case isFalse => cases hskip
  case isTrue hsp =>
    cases hskip
    have hle := spells_le_lineStop hl hl' hstop hsp
    rw [findCloser?_eq hb hc hl hl' (by omega) hle] at h
    split
    case isTrue hlt =>
      simp only [if_pos hlt] at h
      split at h <;> (cases h; rfl)
    case isFalse hlt =>
      simp only [if_neg hlt] at h
      cases h
      rfl

-- No comment starts from `i` on and before the first `closer`.
def Flat (profile : Profile) (buf : Buffer) (closer : String) (i : Nat) : Prop :=
  ∀ k, i ≤ k → k < firstMatch buf closer i → Skip.blockSymbols? profile buf k = none

-- A skip passes over what is neither the closer nor an opener.
theorem closeComments_from {outer : List String} (hij : i ≤ j) (hj : j ≤ buf.size)
    (hc : ∀ k, i ≤ k → k < j → buf.matchesAt k closer = false)
    (ho : ∀ k, i ≤ k → k < j →
      (if profile.blockCommentsNest then Skip.blockSymbols? profile buf k else none) = none) :
    Skip.closeComments profile buf i (closer :: outer) =
      Skip.closeComments profile buf j (closer :: outer) := by
  obtain ⟨n, rfl⟩ := Nat.exists_eq_add_of_le hij
  induction n generalizing i
  case zero => rfl
  case succ n hi =>
    have hskip := Skip.skip?_eq_none_iff.mpr (hc i (Nat.le_refl _) (by omega))
    rw [Skip.closeComments_other (by omega) hskip (ho i (Nat.le_refl _) (by omega)),
      hi (by omega) (by omega) (fun k hk hk' => hc k (by omega) (by omega))
        (fun k hk hk' => ho k (by omega) (by omega))]
    congr 1
    omega

theorem closeComments_flat (hb : buf.WellFormed) (hs : IsSymbolic closer) (hi : i ≤ buf.size)
    (h : profile.blockCommentsNest = false ∨ Flat profile buf closer i) :
    Skip.closeComments profile buf i [closer] =
      if firstMatch buf closer i < buf.size then
        firstMatch buf closer i + closer.toList.length
      else buf.size := by
  have hle : firstMatch buf closer i ≤ buf.size := Buffer.seek_le _ hi
  rw [closeComments_from le_firstMatch hle (fun k hk hk' => Buffer.not_of_lt_seek hk hk')
    fun k hk hk' => ?_]
  case _ =>
    split
    case isTrue hlt =>
      rw [Skip.closeComments_close hlt (Skip.skip?_of_matchesAt hb hs (matchesAt_firstMatch hlt))]
      rw [Skip.closeComments]
    case isFalse =>
      rw [Skip.closeComments_end (by omega)]
      exact Nat.le_antisymm hle (by omega)
  case _ =>
    rcases h with h | h
    case inl => simp [h]
    case inr => simp [h k hk hk']

-- Nested or not, what is skipped ends with a closer of the outermost comment, or with the text.
theorem closeComments_ends (hb : buf.WellFormed) (hs : IsSymbolic closer) {inner : List String} :
    buf.size ≤ Skip.closeComments profile buf i (inner ++ [closer]) ∨
      ∃ k, i ≤ k ∧ buf.matchesAt k closer = true ∧
        Skip.closeComments profile buf i (inner ++ [closer]) = k + closer.toList.length := by
  generalize hclosers : inner ++ [closer] = closers
  fun_induction Skip.closeComments profile buf i closers generalizing inner
  case case1 => simp at hclosers
  case case2 i c outer hi j hj ih =>
    have hlt := buf.lt_skip? hj
    -- Either the outermost comment is closed here or one that is nested in it.
    cases inner
    case nil =>
      obtain ⟨rfl, rfl⟩ := List.cons.inj hclosers
      have hm : buf.matchesAt i closer = true := by
        rw [← Bool.not_eq_false, ← Skip.skip?_eq_none_iff, hj]
        simp
      rw [Skip.skip?_of_matchesAt hb hs hm] at hj
      cases hj
      exact .inr ⟨i, Nat.le_refl _, hm, by rw [Skip.closeComments]⟩
    case cons d inner =>
      obtain ⟨rfl, houter⟩ := List.cons.inj hclosers
      refine (ih houter).imp_right ?_
      rintro ⟨k, hk, h⟩
      exact ⟨k, by omega, h⟩
  case case3 i c outer _ _ s _ ih =>
    have hle := buf.le_afterChars i s.opener.utf8ByteSize
    refine (@ih (s.closer :: inner) (by rw [← hclosers]; rfl)).imp_right ?_
    rintro ⟨k, hk, h⟩
    exact ⟨k, by omega, h⟩
  case case4 i c outer _ _ _ ih =>
    refine (ih hclosers).imp_right ?_
    rintro ⟨k, hk, h⟩
    exact ⟨k, by omega, h⟩
  case case5 => exact .inl (by omega)

-- The line behind the one on which the token before `stop` stands. A construct that ends with the
-- text leaves no line.
def lineBehind (buf : Buffer) (stop : Nat) : Nat :=
  if stop < buf.size then buf.lineOf (stop - 1) + 1 else buf.lineCount + 1

theorem lineBehind_of_matchesAt (hb : buf.WellFormed) (hs : IsSymbolic closer)
    (h : buf.matchesAt i closer = true) :
    lineBehind buf (i + closer.toList.length) = buf.lineOf i + 1 := by
  have hsp := Skip.spells_of_matchesAt hb hs h
  have hle := Buffer.lt_size_of_spells hsp hs.1
  -- Symbols are no line breaks, and so the line is the same up to the position behind them.
  have hend := Buffer.lineOf_spells hsp
  unfold lineBehind
  split
  case isTrue =>
    have hlast : buf.lineOf (i + closer.toList.length - 1) ≤ buf.lineOf (i + closer.toList.length) :=
      Buffer.lineOf_mono (Nat.sub_le ..)
    have hpos := List.length_pos_iff.mpr hs.1
    have hfirst : buf.lineOf i ≤ buf.lineOf (i + closer.toList.length - 1) :=
      Buffer.lineOf_mono (by omega)
    omega
  case isFalse =>
    rw [show i + closer.toList.length = buf.size by omega, Buffer.lineOf_size] at hend
    rw [hend]

theorem findSome?_eq_bind {α β : Type} {f : α → Option β} {p : α → Bool} {xs : List α}
    (h : ∀ x ∈ xs, (f x).isSome = p x) : xs.findSome? f = (xs.find? p).bind f := by
  induction xs
  case nil => rfl
  case cons x xs hi =>
    have hx := h x (.head _)
    rw [List.findSome?_cons, List.find?_cons, ← hx, hi fun y hy => h y (.tail _ hy)]
    cases hf : f x <;> simp [hf]

-- Whether a block comment is read depends on its opener alone.
theorem isSome_readBlock?_eq (buf : Buffer) (line : Nat) (symbols : BlockSymbols) (alone : Bool) :
    (readBlock? buf line symbols alone).isSome =
      (afterSymbol? buf line symbols.opener alone).isSome := by
  unfold readBlock?
  cases afterSymbol? buf line symbols.opener alone
  case none => rfl
  case some i =>
    simp only [Option.bind_eq_bind, Option.bind_some, Option.isSome_some]
    split
    case h_1 => rfl
    case h_2 => split <;> rfl

theorem isSome_readBlock? (buf : Buffer) (line : Nat) (symbols : BlockSymbols) :
    (readBlock? buf line symbols false).isSome =
      buf.matchesAt (lineFirst buf line) symbols.opener := by
  rw [isSome_readBlock?_eq]
  simp [afterSymbol?, Buffer.skip?, Buffer.matchesAt]

-- With no Javadoc comment on the line, the plain symbols are the first that can be read.
theorem read?_of_block {s : BlockSymbols}
    (hj : ∀ s ∈ profile.javadocBlockComments, readBlock? buf line s true = none)
    (hs : Skip.blockSymbols? profile buf (lineFirst buf line) = some s) :
    read? buf profile line = (readBlock? buf line s false).map fun r =>
      { r with candidate := r.candidate.filter (!isCheckerNote buf s ·) } := by
  have hjavadoc : (profile.javadocBlockComments.findSome? fun s =>
      (readBlock? buf line s true).map fun r =>
        { r with candidate := r.candidate.map Candidate.asJavadoc }) = none := by
    rw [List.findSome?_eq_none_iff]
    exact fun s hs => by rw [hj s hs, Option.map_none]
  have hfirst : (profile.blockComments.findSome? fun s => (readBlock? buf line s false).map fun r =>
      { r with candidate := r.candidate.filter (!isCheckerNote buf s ·) }) =
        (Skip.blockSymbols? profile buf (lineFirst buf line)).bind fun s =>
          (readBlock? buf line s false).map fun r =>
            { r with candidate := r.candidate.filter (!isCheckerNote buf s ·) } :=
    findSome?_eq_bind fun s _ => by rw [Option.isSome_map, isSome_readBlock?]
  have hsome : (readBlock? buf line s false).isSome = true := by
    rw [isSome_readBlock?]
    simpa using List.find?_some hs
  obtain ⟨r, hr⟩ := Option.isSome_iff_exists.mp hsome
  simp only [read?, hjavadoc, hfirst, Option.none_or, hs, Option.bind_some, hr, Option.map_some,
    Option.some_or]

-- Both take the first pair whose opener stands at the beginning of the line.
theorem exists_readBlock?_of_read? {r : Reading} (h : read? buf profile line = some r)
    (hj : ∀ s ∈ profile.javadocBlockComments, readBlock? buf line s true = none)
    (hb : ∃ s ∈ profile.blockComments, (readBlock? buf line s false).isSome = true) :
    ∃ s r', Skip.blockSymbols? profile buf (lineFirst buf line) = some s ∧
      readBlock? buf line s false = some r' ∧ r'.next = r.next := by
  obtain ⟨s, hs⟩ : ∃ s, Skip.blockSymbols? profile buf (lineFirst buf line) = some s := by
    obtain ⟨s, hmem, hs⟩ := hb
    rw [isSome_readBlock?] at hs
    exact Option.isSome_iff_exists.mp (List.find?_isSome.mpr ⟨s, hmem, hs⟩)
  rw [read?_of_block hj hs, Option.map_eq_some_iff] at h
  obtain ⟨r', hr', rfl⟩ := h
  exact ⟨s, r', hs, hr', rfl⟩

-- The skip counts the comments that are nested in a block comment, and the reading does not. So the
-- reading may go on earlier where comments nest and one starts in the block, but never later.
theorem block_ends_alike (profile : Profile) (text : List Char) {r : Reading}
    (hs : ∀ s ∈ profile.blockComments, IsSymbolic s.opener ∧ IsSymbolic s.closer)
    (hl : 1 ≤ line) (hl' : line ≤ (Buffer.ofChars text).lineCount)
    (hr : read? (.ofChars text) profile line = some r)
    (hj : ∀ s ∈ profile.javadocBlockComments, readBlock? (.ofChars text) line s true = none)
    (hb : ∃ s ∈ profile.blockComments, (readBlock? (.ofChars text) line s false).isSome = true) :
    ∃ s stop, Skip.blockSymbols? profile (.ofChars text) (lineFirst (.ofChars text) line) = some s ∧
      Skip.blockComment? profile (.ofChars text) (lineFirst (.ofChars text) line) = some stop ∧
      r.next ≤ lineBehind (.ofChars text) stop ∧
      (profile.blockCommentsNest = false ∨
          Flat profile (.ofChars text) s.closer
            (lineFirst (.ofChars text) line + s.opener.toList.length) →
        r.next = lineBehind (.ofChars text) stop) := by
  have hw := Buffer.wellFormed_ofChars text
  generalize Buffer.ofChars text = buf at *
  obtain ⟨s, r', hsymbols, hread, hnext⟩ := exists_readBlock?_of_read? hr hj hb
  have ⟨ho, hc⟩ := hs s (List.mem_of_find?_eq_some hsymbols)
  have hsp := Skip.spells_of_matchesAt hw ho (by simpa using List.find?_some hsymbols)
  have hopener : buf.afterChars (lineFirst buf line) s.opener.utf8ByteSize =
      lineFirst buf line + s.opener.toList.length :=
    Buffer.afterChars_of_skip? (fun c hc => ascii_of_symbol (ho.2 c hc))
      (by rw [Skip.skip?_eq hw ho, if_pos hsp])
  have hle := Buffer.lt_size_of_spells hsp ho.1
  have hends := next_readBlock? hw ho hc hl hl' hread
  rw [hnext] at hends
  have hskip : Skip.blockComment? profile buf (lineFirst buf line) =
      some (Skip.closeComments profile buf (lineFirst buf line + s.opener.toList.length)
        [s.closer]) := by
    rw [Skip.blockComment?, hsymbols, Option.map_some, hopener]
  refine ⟨s, _, hsymbols, hskip, ?le, fun h => ?eq⟩
  case le =>
    have hlast : r.next ≤ buf.lineCount + 1 := by
      rw [hends]
      split
      case isTrue hlt => exact Nat.succ_le_succ (Buffer.lineOf_le (Nat.le_of_lt hlt))
      case isFalse => exact Nat.le_refl _
    have hclose : _ ∨ ∃ k, _ ∧ _ ∧ Skip.closeComments profile buf
        (lineFirst buf line + s.opener.toList.length) ([] ++ [s.closer]) = _ :=
      closeComments_ends hw hc
    rcases hclose with h | ⟨k, hk, hm, h⟩
    case inl => exact hlast.trans_eq (if_neg (Nat.not_lt_of_le h)).symm
    case inr =>
      rw [List.nil_append] at h
      have hfirst : firstMatch buf s.closer (lineFirst buf line + s.opener.toList.length) ≤ k :=
        Buffer.seek_le_of_hit hk hm
      have hlt := Skip.lt_size_of_matchesAt buf hm
      rw [h, lineBehind_of_matchesAt hw hc hm, hends, if_pos (hfirst.trans_lt hlt)]
      exact Nat.succ_le_succ (Buffer.lineOf_mono hfirst)
  case eq =>
    rw [closeComments_flat hw hc hle h, hends]
    split
    case isTrue hlt => exact (lineBehind_of_matchesAt hw hc (matchesAt_firstMatch hlt)).symm
    case isFalse => exact (if_neg (Nat.lt_irrefl _)).symm

-- The comment starts behind blanks on the second line and ends on the third.
theorem block_ends_alike_second_line :
    ∃ r stop,
      read? (.ofChars "int a;\n  /* b\n** c */ d\n/**/".toList) Profile.builtinC.prepared 2 = some r ∧
      Skip.blockComment? Profile.builtinC.prepared
        (.ofChars "int a;\n  /* b\n** c */ d\n/**/".toList) 6 = some stop ∧
      r.next = lineBehind (.ofChars "int a;\n  /* b\n** c */ d\n/**/".toList) stop := by
  obtain ⟨r, hr⟩ : ∃ r, read? (.ofChars "int a;\n  /* b\n** c */ d\n/**/".toList)
      Profile.builtinC.prepared 2 = some r := Option.isSome_iff_exists.mp (by decide +kernel)
  have hs : ∀ s ∈ Profile.builtinC.prepared.blockComments,
      IsSymbolic s.opener ∧ IsSymbolic s.closer := by decide
  obtain ⟨s, stop, _, hskip, _, hnext⟩ := block_ends_alike Profile.builtinC.prepared _ hs
    (by decide) (by decide +kernel) hr (by decide +kernel) (by decide +kernel)
  have hfirst : lineFirst (.ofChars "int a;\n  /* b\n** c */ d\n/**/".toList) 2 = 6 := by
    decide +kernel
  rw [hfirst] at hskip
  exact ⟨r, stop, hr, hskip, hnext (.inl rfl)⟩

-- The closer of the nested comment ends the reading, and the outer comment goes on behind it.
theorem nested_block_read_too_short :
    let profile := { Profile.builtinC with blockCommentsNest := true }
    let buf := Buffer.ofChars "/* a\n/* b */\nc */ int x;\n".toList
    (read? buf profile 1).map (·.next) = some 3 ∧
      Skip.blockComment? profile buf (lineFirst buf 1) = some 17 ∧ lineBehind buf 17 = 4 := by
  decide +kernel

end Comment
end SourceDocs

import SourceDocs.Proofs.Comment.Acceptance
import SourceDocs.Proofs.CommentSymbol
import SourceDocs.Proofs.LineBreak.Comment

namespace SourceDocs

open Token (Kind)

def Profile.commentSymbols (profile : Profile) : List String :=
  profile.javadocBlockComments.flatMap (fun s => [s.opener, s.closer]) ++
    profile.blockComments.flatMap (fun s => [s.opener, s.closer]) ++ profile.xmlLineComments ++
      profile.javadocLineComments.flatMap (fun p => [p.first, p.following]) ++ profile.lineComments

namespace Buffer

variable {buf : Buffer} {i j k n : Nat} {s : String}

def Covers (buf : Buffer) (i : Nat) (s : String) (k : Nat) : Prop :=
  ∃ n, buf.matchLength? i s false = some n ∧ i ≤ k ∧ k < i + n

namespace Covers

theorem of_skip? (h : buf.skip? i s false = some j) (hk : i ≤ k) (hk' : k < j) :
    buf.Covers i s k := by
  obtain ⟨n, hn, rfl⟩ := Option.map_eq_some_iff.mp h
  exact ⟨n, hn, hk, hk'⟩

theorem lt_size (h : buf.Covers i s k) : k < buf.size := by
  obtain ⟨n, hn, -, hk⟩ := h
  have hle : i + n ≤ buf.size := buf.skip?_le (by rw [skip?, hn, Option.map_some])
  omega

-- The text of the token is part of the symbol.
theorem subset (h : buf.Covers i s k) : buf.chars k ⊆ s.toList := by
  have hlt := h.lt_size
  obtain ⟨n, hn, hk, hk'⟩ := h
  obtain ⟨t, ht⟩ := exists_token hlt
  rw [matchLength?, if_neg (ne_nil_of_matchLength? _ hn)] at hn
  rw [← slice_of_cover? hn, ← slice_append_slice hk (Nat.le_of_lt hk'), slice_cons hk' ht]
  have hchars : buf.chars k = t.chars := by simp [chars, ht]
  intro c hc
  rw [hchars] at hc
  simp [hc]

theorem not_isLineBreak (hb : buf.WellFormed) (hs : Unbroken s.toList) (h : buf.Covers i s k) :
    buf.isLineBreak k = false := by
  obtain ⟨t, ht⟩ := exists_token h.lt_size
  obtain ⟨c, cs, hc, -⟩ := (hb.token ht).ofChar_head
  have hmem : c ∈ buf.chars k := by simp [chars, ht, hc]
  have hne := hs c (h.subset hmem)
  rw [isLineBreak, hb.kind?_of_mem hmem, decide_eq_false_iff_not, Option.some.injEq, Kind.ofChar]
  split <;> (try split) <;> simp_all

end Covers
end Buffer

namespace Comment

variable {buf : Buffer} {profile : Profile} {line m i j k n : Nat} {s : BlockSymbols} {p : LinePair}
  {r : Reading} {c : Candidate}

theorem le_lineStop (hl : 1 ≤ line) (hl' : line ≤ buf.lineCount) (hi : i ≤ lineStop buf line)
    (hj : j ≤ buf.size) (h : ∀ k, i ≤ k → k < j → buf.isLineBreak k = false) :
    j ≤ lineStop buf line := by
  by_contra hlt
  rcases Nat.lt_or_eq_of_le hl' with hl' | rfl
  case inl =>
    have hbreak := (lineStop_of_lt hl hl').2
    simp [h _ hi (by omega)] at hbreak
  case inr =>
    rw [lineStop_lineCount] at hlt
    exact hlt hj

theorem lineOf_eq_of_covers (hb : buf.WellFormed) {symbol : String} (hs : Unbroken symbol.toList)
    (hl : 1 ≤ line) (hl' : line ≤ buf.lineCount) (hi : buf.lineStart line ≤ i)
    (hi' : i ≤ lineStop buf line) (h : buf.Covers i symbol k) : buf.lineOf k = line := by
  obtain ⟨n, hn, hk, hk'⟩ := h
  have hlt : k + 1 ≤ lineStop buf line := by
    refine le_lineStop hl hl' hi' (Buffer.Covers.lt_size ⟨n, hn, hk, hk'⟩) fun q hq hq' => ?_
    exact Buffer.Covers.not_isLineBreak hb hs ⟨n, hn, hq, by omega⟩
  have hend := lineStop_le_lineEnd buf line
  exact Buffer.lineOf_eq hl hl' (hi.trans hk) (by omega)

def blockPair? (buf : Buffer) (profile : Profile) (line : Nat) : Option BlockSymbols :=
  (profile.javadocBlockComments.find? (beginsAlone buf line ·.opener)).or
    (profile.blockComments.find? (begins buf line ·.opener))

def closer? (buf : Buffer) (line : Nat) (s : BlockSymbols) : Option (Nat × Nat) :=
  (buf.skip? (lineFirst buf line) s.opener false).bind (findCloser? buf s.closer line)

def BlockDelimiter (buf : Buffer) (line : Nat) (s : BlockSymbols) (k : Nat) : Prop :=
  buf.Covers (lineFirst buf line) s.opener k ∨
    ∃ p ∈ closer? buf line s, buf.Covers p.2 s.closer k

-- A token behind the closer of a block comment that is passed with it, since the closer has more
-- bytes than characters.
def PassedWithCloser (buf : Buffer) (line : Nat) (s : BlockSymbols) (k : Nat) : Prop :=
  ∃ p ∈ closer? buf line s, ∃ n, buf.matchLength? p.2 s.closer false = some n ∧
    p.2 + n ≤ k ∧ k < buf.afterChars (p.2 + n) (surplus s.closer)

def LineDelimiter (buf : Buffer) (line : Nat) (p : LinePair) (k : Nat) : Prop :=
  buf.Covers (lineFirst buf line) p.first k ∨
    ∃ m, line < m ∧ m < pairStop buf line p ∧ buf.Covers (lineFirst buf m) p.following k

def Delimits (buf : Buffer) (profile : Profile) (line k : Nat) : Prop :=
  match blockPair? buf profile line with
  | some s => BlockDelimiter buf line s k
  | none => ∃ p ∈ chosenPair? buf profile line, LineDelimiter buf line p k

-- A token of a symbol of the other reading, where a comment of lines can be read as XML and as
-- Javadoc.
def DelimitsOther (buf : Buffer) (profile : Profile) (line k : Nat) : Prop :=
  blockPair? buf profile line = none ∧ ∃ x j, xmlPair? buf profile line = some x ∧
    javadocPair? buf profile line = some j ∧
      LineDelimiter buf line (if pairStop buf line x < pairStop buf line j then x else j) k

def DelimitsNote (buf : Buffer) (profile : Profile) (line k : Nat) : Prop :=
  ∃ s last i, profile.javadocBlockComments.find? (beginsAlone buf line ·.opener) = none ∧
    profile.blockComments.find? (begins buf line ·.opener) = some s ∧
      closer? buf line s = some (last, i) ∧
        isCheckerNote buf s (.plain line (last + 1)) = true ∧ BlockDelimiter buf line s k

theorem isSome_blockPair? : (blockPair? buf profile line).isSome = startsBlock buf profile line := by
  rw [Bool.eq_iff_iff]
  simp [blockPair?, startsBlock]

def Reading.Delimits (r : Reading) (k : Nat) : Prop :=
  ∃ d ∈ r.delimiters, d.start ≤ k ∧ k < d.stop

-- A block comment sets something off only if it may be a candidate.
theorem delimits_readBlock? {alone : Bool} (h : readBlock? buf line s alone = some r)
    (hk : r.Delimits k) : ∃ last i, closer? buf line s = some (last, i) ∧
      r.candidate = some (.plain line (last + 1)) ∧
        (BlockDelimiter buf line s k ∨ PassedWithCloser buf line s k) := by
  obtain ⟨start, hstart, h⟩ := Option.bind_eq_some_iff.mp h
  have hskip := (Option.filter_eq_some_iff.mp hstart).1
  obtain ⟨d, hd, hdk, hdk'⟩ := hk
  split at h
  case h_1 =>
    cases h
    cases hd
  case h_2 last i hcloser =>
    have hfound : closer? buf line s = some (last, i) := by
      rw [closer?, hskip, Option.bind_some, hcloser]
    dsimp only at h
    split at h <;> cases h
    case isFalse => cases hd
    case isTrue =>
      refine ⟨last, i, hfound, rfl, ?_⟩
      simp only [List.mem_cons, List.not_mem_nil, or_false] at hd
      rcases hd with rfl | rfl
      case inl => exact .inl (.inl (.of_skip? hskip hdk hdk'))
      case inr =>
        obtain ⟨n, hn⟩ := Option.isSome_iff_exists.mp (matchesAt_of_findCloser? hcloser)
        simp only at hdk hdk'
        rw [Buffer.afterChars_of_matchLength? hn] at hdk'
        by_cases hlt : k < i + n
        case pos => exact .inl (.inr ⟨_, hfound, n, hn, hdk, hlt⟩)
        case neg => exact .inr ⟨_, hfound, n, hn, Nat.le_of_not_lt hlt, hdk'⟩

theorem covers_of_mem_symbolRun {symbol : String} {d : Span} (hd : d ∈ symbolRun buf symbol line)
    (hk : d.start ≤ k) (hk' : k < d.stop) :
    ∃ m, line ≤ m ∧ m < runStop buf symbol line ∧ buf.Covers (lineFirst buf m) symbol k := by
  rw [← length_symbolRun_eq]
  fun_induction symbolRun buf symbol line
  case case1 line hl i hi ih =>
    rw [List.length_cons]
    rcases List.mem_cons.mp hd with rfl | hd
    case inl => exact ⟨line, Nat.le_refl _, by omega, .of_skip? hi hk hk'⟩
    case inr =>
      obtain ⟨m, hm, hm', h⟩ := ih hd
      exact ⟨m, by omega, by omega, h⟩
  all_goals cases hd

theorem lineDelimiter_of_readLines? {alone : Bool} {found : Candidate × List Span}
    (h : readLines? buf line p.first p.following alone = some found)
    (hk : ∃ d ∈ found.2, d.start ≤ k ∧ k < d.stop) : LineDelimiter buf line p k := by
  obtain ⟨start, hstart, h⟩ := Option.bind_eq_some_iff.mp h
  cases h
  obtain ⟨d, hd, hdk, hdk'⟩ := hk
  rcases List.mem_cons.mp hd with rfl | hd
  case inl => exact .inl (.of_skip? (Option.filter_eq_some_iff.mp hstart).1 hdk hdk')
  case inr =>
    obtain ⟨m, hm, hm', h⟩ := covers_of_mem_symbolRun hd hdk hdk'
    exact .inr ⟨m, hm, hm', h⟩

theorem exists_readLines? (h : beginsAlone buf line p.first = true) :
    ∃ found, readLines? buf line p.first p.following true = some found :=
  Option.isSome_iff_exists.mp
    (((isSome_readLines? true).trans isSome_afterSymbol?_true).trans h)

theorem beginsAlone_of_xmlPair? (h : xmlPair? buf profile line = some p) :
    beginsAlone buf line p.first = true := by
  obtain ⟨s, hs, rfl⟩ := Option.map_eq_some_iff.mp h
  simpa using List.find?_some hs

theorem beginsAlone_of_javadocPair? (h : javadocPair? buf profile line = some p) :
    beginsAlone buf line p.first = true := by
  simpa using List.find?_some h

theorem readJavadocLines?_eq (buf : Buffer) (profile : Profile) (line : Nat) :
    readJavadocLines? buf profile line = (javadocPair? buf profile line).bind fun p =>
      readLines? buf line p.first p.following true :=
  findSome?_eq_bind fun _ _ => (isSome_readLines? true).trans isSome_afterSymbol?_true

-- In each style the first symbols that begin the line are those with which it is read.
theorem read?_eq (buf : Buffer) (profile : Profile) (line : Nat) :
    read? buf profile line =
      ((profile.javadocBlockComments.find? (beginsAlone buf line ·.opener)).bind fun s =>
        (readBlock? buf line s true).map fun r =>
          { r with candidate := r.candidate.map (·.asJavadoc) }).or
      (((profile.blockComments.find? (begins buf line ·.opener)).bind fun s =>
        (readBlock? buf line s false).map fun r =>
          { r with candidate := r.candidate.filter (!isCheckerNote buf s ·) }).or
      ((((xmlPair? buf profile line).bind fun p =>
        readLines? buf line p.first p.following true).map fun r =>
          chooseReading r (readJavadocLines? buf profile line)).or
      (((readJavadocLines? buf profile line).map fun r => .ofLines r.1.asJavadoc r.2).or
      (((plainPair? buf profile line).bind fun p =>
        readLines? buf line p.first p.following false).map fun r => .ofLines r.1 r.2)))) := by
  have hxml : (profile.xmlLineComments.findSome? fun s => readLines? buf line s s true) =
      (xmlPair? buf profile line).bind fun p => readLines? buf line p.first p.following true := by
    rw [xmlPair?, Option.bind_map]
    exact findSome?_eq_bind fun s _ =>
      (isSome_readLines? (p := ⟨s, s⟩) true).trans isSome_afterSymbol?_true
  have hplain : (profile.lineComments.findSome? fun s => readLines? buf line s s false) =
      (plainPair? buf profile line).bind fun p => readLines? buf line p.first p.following false := by
    rw [plainPair?, Option.bind_map]
    exact findSome?_eq_bind fun s _ =>
      (isSome_readLines? (p := ⟨s, s⟩) false).trans isSome_afterSymbol?_false
  rw [read?, hxml, hplain]
  congr 1
  case e_a =>
    refine findSome?_eq_bind fun s _ => ?_
    rw [Option.isSome_map, isSome_readBlock?_eq, isSome_afterSymbol?_true]
  case e_a =>
    congr 1
    refine findSome?_eq_bind fun s _ => ?_
    rw [Option.isSome_map, isSome_readBlock?_eq, isSome_afterSymbol?_false]

theorem delimits_read?_block (hs : blockPair? buf profile line = some s)
    (hr : read? buf profile line = some r) (hk : r.Delimits k) :
    ∃ last i, closer? buf line s = some (last, i) ∧
      (BlockDelimiter buf line s k ∨ PassedWithCloser buf line s k) ∧
        ((∃ c ∈ r.candidate, c.endLine = last + 1) ∨
          profile.javadocBlockComments.find? (beginsAlone buf line ·.opener) = none ∧
            profile.blockComments.find? (begins buf line ·.opener) = some s ∧
              isCheckerNote buf s (.plain line (last + 1)) = true) := by
  rw [read?_eq] at hr
  rcases Option.or_eq_some_iff.mp hs with hs | ⟨hn, hs⟩
  case inl =>
    have hsome : (readBlock? buf line s true).isSome = true := by
      rw [isSome_readBlock?_eq, isSome_afterSymbol?_true]
      simpa using List.find?_some hs
    obtain ⟨r', hr'⟩ := Option.isSome_iff_exists.mp hsome
    rw [hs, Option.bind_some, hr', Option.map_some, Option.some_or] at hr
    cases hr
    obtain ⟨last, i, hcloser, hc, h⟩ := delimits_readBlock? hr' hk
    exact ⟨last, i, hcloser, h, .inl ⟨(Candidate.plain line (last + 1)).asJavadoc, by simp [hc], rfl⟩⟩
  case inr =>
    have hsome : (readBlock? buf line s false).isSome = true := by
      rw [isSome_readBlock?_eq, isSome_afterSymbol?_false]
      simpa using List.find?_some hs
    obtain ⟨r', hr'⟩ := Option.isSome_iff_exists.mp hsome
    rw [hn, Option.bind_none, Option.none_or, hs, Option.bind_some, hr', Option.map_some,
      Option.some_or] at hr
    cases hr
    obtain ⟨last, i, hcloser, hc, h⟩ := delimits_readBlock? hr' hk
    refine ⟨last, i, hcloser, h, ?_⟩
    cases hnote : isCheckerNote buf s (.plain line (last + 1))
    case true => exact .inr ⟨hn, hs, rfl⟩
    case false => exact .inl ⟨.plain line (last + 1), by simp [hc, hnote], rfl⟩

-- Both readings set their symbols off, and one of the two is chosen.
theorem lineDelimiter_of_both {x j : LinePair} (hn : blockPair? buf profile line = none)
    (hx : xmlPair? buf profile line = some x) (hj : javadocPair? buf profile line = some j)
    (h : LineDelimiter buf line x k ∨ LineDelimiter buf line j k) :
    (∃ p ∈ chosenPair? buf profile line, LineDelimiter buf line p k) ∨
      DelimitsOther buf profile line k := by
  have hother (h : LineDelimiter buf line
      (if pairStop buf line x < pairStop buf line j then x else j) k) :
      DelimitsOther buf profile line k := ⟨hn, x, j, hx, hj, h⟩
  simp only [chosenPair?, hx, hj]
  by_cases hlt : pairStop buf line x < pairStop buf line j
  case pos =>
    rw [if_pos hlt] at hother ⊢
    rcases h with h | h
    case inl => exact .inr (hother h)
    case inr => exact .inl ⟨j, rfl, h⟩
  case neg =>
    rw [if_neg hlt] at hother ⊢
    rcases h with h | h
    case inl => exact .inl ⟨x, rfl, h⟩
    case inr => exact .inr (hother h)

theorem delimits_read?_lines (hn : blockPair? buf profile line = none)
    (hr : read? buf profile line = some r) (hk : r.Delimits k) :
    (∃ p ∈ chosenPair? buf profile line, LineDelimiter buf line p k) ∨
      DelimitsOther buf profile line k := by
  have ⟨hjavadocBlock, hblock⟩ := Option.or_eq_none_iff.mp hn
  rw [read?_eq, hjavadocBlock, hblock, Option.bind_none, Option.bind_none, Option.none_or,
    Option.none_or, readJavadocLines?_eq] at hr
  unfold chosenPair?
  cases hx : xmlPair? buf profile line
  case none =>
    cases hj : javadocPair? buf profile line
    case none =>
      simp only [hx, hj, Option.bind_none, Option.map_none, Option.none_or] at hr
      obtain ⟨found, hfound, rfl⟩ := Option.map_eq_some_iff.mp hr
      obtain ⟨p, hp, hread⟩ := Option.bind_eq_some_iff.mp hfound
      exact .inl ⟨p, hp, lineDelimiter_of_readLines? hread hk⟩
    case some j =>
      obtain ⟨javadoc, hread⟩ := exists_readLines? (beginsAlone_of_javadocPair? hj)
      simp only [hx, hj, hread, Option.bind_none, Option.bind_some, Option.map_none,
        Option.map_some, Option.none_or, Option.some_or, Option.some.injEq] at hr
      subst hr
      exact .inl ⟨j, rfl, lineDelimiter_of_readLines? hread hk⟩
  case some x =>
    obtain ⟨xml, hxml⟩ := exists_readLines? (beginsAlone_of_xmlPair? hx)
    cases hj : javadocPair? buf profile line
    case none =>
      simp only [hx, hj, hxml, Option.bind_none, Option.bind_some, Option.map_some,
        Option.some_or, Option.some.injEq] at hr
      subst hr
      exact .inl ⟨x, rfl, lineDelimiter_of_readLines? hxml hk⟩
    case some j =>
      obtain ⟨javadoc, hjavadoc⟩ := exists_readLines? (beginsAlone_of_javadocPair? hj)
      simp only [hx, hj, hxml, hjavadoc, Option.bind_some, Option.map_some, Option.some_or,
        Option.some.injEq] at hr
      subst hr
      obtain ⟨d, hd, hdk⟩ := hk
      have hboth : LineDelimiter buf line x k ∨ LineDelimiter buf line j k :=
        (List.mem_append.mp hd).imp (lineDelimiter_of_readLines? hxml ⟨d, ·, hdk⟩)
          (lineDelimiter_of_readLines? hjavadoc ⟨d, ·, hdk⟩)
      simpa only [chosenPair?, hx, hj] using lineDelimiter_of_both hn hx hj hboth

theorem unbroken_blockPair? (hp : ∀ s ∈ profile.commentSymbols, Unbroken s.toList)
    (h : blockPair? buf profile line = some s) :
    Unbroken s.opener.toList ∧ Unbroken s.closer.toList := by
  have hmem : s.opener ∈ profile.commentSymbols ∧ s.closer ∈ profile.commentSymbols := by
    simp only [Profile.commentSymbols, List.mem_append, List.mem_flatMap]
    rcases Option.or_eq_some_iff.mp h with h | ⟨-, h⟩
    case inl =>
      have hs := List.mem_of_find?_eq_some h
      exact ⟨.inl (.inl (.inl (.inl ⟨s, hs, by simp⟩))), .inl (.inl (.inl (.inl ⟨s, hs, by simp⟩)))⟩
    case inr =>
      have hs := List.mem_of_find?_eq_some h
      exact ⟨.inl (.inl (.inl (.inr ⟨s, hs, by simp⟩))), .inl (.inl (.inl (.inr ⟨s, hs, by simp⟩)))⟩
  exact ⟨hp _ hmem.1, hp _ hmem.2⟩

theorem unbroken_pair (hp : ∀ s ∈ profile.commentSymbols, Unbroken s.toList)
    (h : xmlPair? buf profile line = some p ∨ javadocPair? buf profile line = some p ∨
      plainPair? buf profile line = some p) :
    Unbroken p.first.toList ∧ Unbroken p.following.toList := by
  have hmem : p.first ∈ profile.commentSymbols ∧ p.following ∈ profile.commentSymbols := by
    simp only [Profile.commentSymbols, List.mem_append, List.mem_flatMap]
    rcases h with h | h | h
    case inl =>
      obtain ⟨s, hs, rfl⟩ := Option.map_eq_some_iff.mp h
      have hs := List.mem_of_find?_eq_some hs
      exact ⟨.inl (.inl (.inr hs)), .inl (.inl (.inr hs))⟩
    case inr.inl =>
      have hs := List.mem_of_find?_eq_some h
      exact ⟨.inl (.inr ⟨p, hs, by simp⟩), .inl (.inr ⟨p, hs, by simp⟩)⟩
    case inr.inr =>
      obtain ⟨s, hs, rfl⟩ := Option.map_eq_some_iff.mp h
      have hs := List.mem_of_find?_eq_some hs
      exact ⟨.inr hs, .inr hs⟩
  exact ⟨hp _ hmem.1, hp _ hmem.2⟩

theorem eq_of_chosenPair? (h : chosenPair? buf profile line = some p) :
    xmlPair? buf profile line = some p ∨ javadocPair? buf profile line = some p ∨
      plainPair? buf profile line = some p := by
  unfold chosenPair? at h
  split at h
  case h_1 x j hx hj =>
    split at h <;> cases h
    case isTrue => exact .inr (.inl hj)
    case isFalse => exact .inl hx
  case h_2 x hx _ =>
    cases h
    exact .inl hx
  case h_3 j _ hj =>
    cases h
    exact .inr (.inl hj)
  case h_4 => exact .inr (.inr h)

section

variable (hb : buf.WellFormed) (hl : 1 ≤ line) (hl' : line ≤ buf.lineCount)

include hb hl hl'

theorem lineOf_blockDelimiter {last : Nat} (ho : Unbroken s.opener.toList)
    (hc : Unbroken s.closer.toList) (hcloser : closer? buf line s = some (last, i))
    (h : BlockDelimiter buf line s k) : line ≤ buf.lineOf k ∧ buf.lineOf k < last + 1 := by
  have ⟨hfirst, hfirst'⟩ := lineFirst_bounds hl hl'
  obtain ⟨start, hskip, hfound⟩ := Option.bind_eq_some_iff.mp hcloser
  have hstart := buf.lt_skip? hskip
  have hle := (findCloser?_bounds hl' hfound).1
  rcases h with h | ⟨q, hq, h⟩
  case inl =>
    rw [lineOf_eq_of_covers hb ho hl hl' hfirst hfirst' h]
    exact ⟨Nat.le_refl _, Nat.lt_succ_of_le hle⟩
  case inr =>
    obtain rfl := Option.some.inj (hcloser.symm.trans hq)
    obtain ⟨hpos, hlast, hlo, hhi⟩ := findCloser?_on_line hl hl' (by omega) hfound
    rw [lineOf_eq_of_covers hb hc hpos hlast hlo (Nat.le_of_lt hhi) h]
    exact ⟨hle, Nat.lt_succ_self _⟩

theorem lineOf_lineDelimiter (hf : Unbroken p.first.toList) (hf' : Unbroken p.following.toList)
    (h : LineDelimiter buf line p k) :
    line ≤ buf.lineOf k ∧ buf.lineOf k < pairStop buf line p := by
  have hstop : line + 1 ≤ pairStop buf line p := Buffer.le_seek ..
  have hstop' : pairStop buf line p ≤ buf.lineCount + 1 := Buffer.seek_le _ (by omega)
  rcases h with h | ⟨m, hm, hm', h⟩
  case inl =>
    have ⟨hfirst, hfirst'⟩ := lineFirst_bounds hl hl'
    rw [lineOf_eq_of_covers hb hf hl hl' hfirst hfirst' h]
    exact ⟨Nat.le_refl _, hstop⟩
  case inr =>
    have hpos : 1 ≤ m := by omega
    have hle : m ≤ buf.lineCount := by omega
    have ⟨hfirst, hfirst'⟩ := lineFirst_bounds hpos hle
    rw [lineOf_eq_of_covers hb hf' hpos hle hfirst hfirst' h]
    exact ⟨Nat.le_of_lt hm, hm'⟩

-- The candidate takes the longer of two readings, and so the lines of both.
theorem containsLine_of_lines (hp : ∀ s ∈ profile.commentSymbols, Unbroken s.toList)
    (hn : blockPair? buf profile line = none) (hr : read? buf profile line = some r)
    (h : (∃ p ∈ chosenPair? buf profile line, LineDelimiter buf line p k) ∨
      DelimitsOther buf profile line k) :
    ∃ c ∈ r.candidate, c.containsLine (buf.lineOf k) = true := by
  have hstarts : startsBlock buf profile line = false := by
    rw [← isSome_blockPair?, hn, Option.isSome_none]
  have hread := candidate_read? hstarts
  rw [hr, Option.map_some] at hread
  obtain ⟨c, hline, hc⟩ := Option.map_eq_some_iff.mp hread.symm
  have hstart := (sound_read? hl' hr).start_eq c hc.symm
  refine ⟨c, hc.symm, ?_⟩
  rw [Candidate.containsLine_iff, hstart]
  rcases h with ⟨p, hpair, h⟩ | ⟨-, x, j, hx, hj, h⟩
  case inl =>
    obtain ⟨p', hpair', hend⟩ := exists_of_lineCandidate? hline
    obtain rfl : p = p' := Option.some.inj (hpair.symm.trans hpair')
    have ⟨hf, hf'⟩ := unbroken_pair hp (eq_of_chosenPair? hpair)
    rw [hend]
    exact lineOf_lineDelimiter hb hl hl' hf hf' h
  case inr =>
    obtain ⟨c', hline', hend, -⟩ := exists_lineCandidate?_of_both hx hj
    obtain rfl : c = c' := Option.some.inj (hline.symm.trans hline')
    rw [hend]
    split at h
    case isTrue =>
      have ⟨hf, hf'⟩ := unbroken_pair hp (.inl hx)
      have := lineOf_lineDelimiter hb hl hl' hf hf' h
      omega
    case isFalse =>
      have ⟨hf, hf'⟩ := unbroken_pair hp (.inr (.inl hj))
      have := lineOf_lineDelimiter hb hl hl' hf hf' h
      omega

-- What a reading sets off is part of a delimiter of the candidate that is read and lies on its
-- lines, with three exceptions: the symbols of the other reading, the delimiters of a note to a
-- checker, and what is passed with the closer of a block comment.
theorem delimits_read? (hp : ∀ s ∈ profile.commentSymbols, Unbroken s.toList)
    (hr : read? buf profile line = some r) (hk : r.Delimits k) :
    (∃ c ∈ r.candidate, c.containsLine (buf.lineOf k) = true ∧
      (Delimits buf profile line k ∨ DelimitsOther buf profile line k)) ∨
        DelimitsNote buf profile line k ∨
          ∃ s ∈ blockPair? buf profile line, PassedWithCloser buf line s k := by
  cases hpair : blockPair? buf profile line
  case none =>
    have h := delimits_read?_lines hpair hr hk
    obtain ⟨c, hc, hline⟩ := containsLine_of_lines hb hl hl' hp hpair hr h
    exact .inl ⟨c, hc, hline, h.imp_left fun h => by rwa [Delimits, hpair]⟩
  case some s =>
    obtain ⟨last, i, hcloser, h | h, hcandidate⟩ := delimits_read?_block hpair hr hk
    case inr => exact .inr (.inr ⟨s, rfl, h⟩)
    case inl =>
      rcases hcandidate with ⟨c, hc, hend⟩ | ⟨hn, hs, hnote⟩
      case inr => exact .inr (.inl ⟨s, last, i, hn, hs, hcloser, hnote, h⟩)
      case inl =>
        have hstart := (sound_read? hl' hr).start_eq c hc
        have ⟨ho, hc'⟩ := unbroken_blockPair? hp hpair
        refine .inl ⟨c, hc, ?_, .inl (by rwa [Delimits, hpair])⟩
        rw [Candidate.containsLine_iff, hstart, hend]
        exact lineOf_blockDelimiter hb hl hl' ho hc' hcloser h

end

end Comment
end SourceDocs

import SourceDocs.Proofs.Comment.Block
import SourceDocs.Proofs.OneLine.Read

namespace SourceDocs

-- The bytes of a symbol beyond one for each of its characters.
def surplus (s : String) : Nat :=
  s.utf8ByteSize - s.toList.length

theorem surplus_eq_zero {s : String} (h : ∀ c ∈ s.toList, c.toNat < 0x80) : surplus s = 0 := by
  rw [surplus, utf8ByteSize_eq_length h, Nat.sub_self]

namespace Buffer

variable {buf : Buffer} {i j n stop : Nat} {s : String}

-- Characters beyond those of a literal are passed from the token behind it on.
theorem afterChars_add_of_cover? {ignoreCase : Bool} {literal : List Char} (extra : Nat)
    (h : buf.cover? ignoreCase i literal = some n) :
    buf.afterChars i (literal.length + extra) = buf.afterChars (i + n) extra := by
  fun_induction cover? buf ignoreCase i literal generalizing n
  case case1 =>
    cases h
    rw [List.length_nil, Nat.zero_add, Nat.add_zero]
  case case2 i literal hl hi ih =>
    obtain ⟨rest, hrest, h⟩ := Option.bind_eq_some_iff.mp h
    obtain ⟨m, hm, hn⟩ := Option.bind_eq_some_iff.mp h
    have hlen := length_dropLead? hrest
    have hpos := List.length_pos_iff.mpr hl
    have hleft : literal.length + extra - (buf.chars i).length = rest.length + extra := by omega
    cases hn
    rw [afterChars, if_pos ⟨hi, by omega⟩, hleft, ih rest hm]
    congr 1
    omega
  case case3 => cases h

theorem afterChars_of_matchLength? (h : buf.matchLength? i s false = some n) :
    buf.afterChars i s.utf8ByteSize = buf.afterChars (i + n) (surplus s) := by
  have hle := length_le_utf8ByteSize s
  rw [matchLength?, if_neg (buf.ne_nil_of_matchLength? h)] at h
  rw [← afterChars_add_of_cover? _ h, surplus, Nat.add_sub_cancel' hle]

theorem afterChars_surplus (buf : Buffer) (i : Nat) (h : ∀ c ∈ s.toList, c.toNat < 0x80) :
    buf.afterChars i (surplus s) = i := by
  rw [surplus_eq_zero h, afterChars, if_neg (by omega)]

theorem slice_of_cover? {literal : List Char} (h : buf.cover? false i literal = some n) :
    buf.slice i (i + n) = literal := by
  generalize hcase : false = ignoreCase at h
  fun_induction cover? buf ignoreCase i literal generalizing n
  case case1 => cases h; exact slice_of_le (Nat.le_refl _)
  case case2 i literal hl hi ih =>
    obtain ⟨rest, hrest, h⟩ := Option.bind_eq_some_iff.mp h
    obtain ⟨m, hm, hn⟩ := Option.bind_eq_some_iff.mp h
    obtain ⟨t, ht⟩ := exists_token hi
    subst hcase
    rw [dropLead?_eq_some] at hrest
    cases hn
    have hslice := ih rest hm
    rw [show i + 1 + m = i + (m + 1) by omega] at hslice
    rw [slice_cons (by omega) ht, hslice, hrest]
    simp [chars, ht]
  case case3 => cases h

-- A symbol covers as many tokens wherever it stands.
theorem matchLength?_eq_size {text : List Char}
    (h : (ofChars text).matchLength? i s false = some n) : n = (ofChars s.toList).size := by
  have hlt := lt_size_of_matchLength? _ h
  rw [matchLength?, if_neg (ne_nil_of_matchLength? _ h)] at h
  have hle := add_cover?_le _ (Nat.le_of_lt hlt) h
  rw [← slice_of_cover? h, size_ofChars_slice text i hle, Nat.add_sub_cancel_left]

theorem seek_eq_seek_iff {p : Nat → Bool} (hij : i ≤ j) (hj : j ≤ stop) :
    seek p j stop = seek p i stop ↔ ∀ k, i ≤ k → k < j → p k = false := by
  constructor
  case mp =>
    intro h k hk hk'
    exact not_of_lt_seek hk (hk'.trans_le (h ▸ le_seek p j stop))
  case mpr => exact fun h => (seek_from h hij hj).symm

def firstLineBreak (buf : Buffer) (i : Nat) : Nat :=
  seek buf.isLineBreak i buf.size

def behindFirst (buf : Buffer) (symbol : String) (i : Nat) : Nat :=
  (buf.skip? (Comment.firstMatch buf symbol i) symbol false).getD buf.size

theorem behindFirst_of_size_le (h : buf.size ≤ Comment.firstMatch buf s i) :
    buf.behindFirst s i = buf.size := by
  rw [behindFirst, Skip.skip?_eq_none_iff.mpr, Option.getD_none]
  rw [Bool.eq_false_iff]
  intro hm
  have := Skip.lt_size_of_matchesAt buf hm
  omega

theorem behindFirst_of_lt_size {text : List Char}
    (h : Comment.firstMatch (ofChars text) s i < (ofChars text).size) :
    (ofChars text).behindFirst s i =
        Comment.firstMatch (ofChars text) s i + (ofChars s.toList).size ∧
      (ofChars text).behindFirst s i ≤ (ofChars text).size := by
  obtain ⟨n, hn⟩ := Option.isSome_iff_exists.mp (Comment.matchesAt_firstMatch h)
  have hskip : (ofChars text).skip? (Comment.firstMatch (ofChars text) s i) s false =
      some (Comment.firstMatch (ofChars text) s i + n) := by
    rw [skip?, hn, Option.map_some]
  have hle := skip?_le _ hskip
  rw [behindFirst, hskip, Option.getD_some]
  exact ⟨congrArg _ (matchLength?_eq_size hn), hle⟩

-- A search that starts later misses a place before, unless the text ends behind that place.
theorem behindFirst_eq_iff {text : List Char} (hij : i ≤ j) (hj : j ≤ (ofChars text).size) :
    (ofChars text).behindFirst s j = (ofChars text).behindFirst s i ↔
      (∀ k, i ≤ k → k < j → (ofChars text).matchesAt k s = false) ∨
        (ofChars text).behindFirst s i = (ofChars text).size := by
  have hfirst : Comment.firstMatch (ofChars text) s j = Comment.firstMatch (ofChars text) s i ↔
      ∀ k, i ≤ k → k < j → (ofChars text).matchesAt k s = false := seek_eq_seek_iff hij hj
  have hmono : Comment.firstMatch (ofChars text) s i ≤ Comment.firstMatch (ofChars text) s j := by
    by_contra hlt
    have hlt := Nat.lt_of_not_le hlt
    have hi : Comment.firstMatch (ofChars text) s i ≤ (ofChars text).size :=
      seek_le _ (hij.trans hj)
    have hm := Comment.matchesAt_firstMatch (hlt.trans_le hi)
    have hle : i ≤ Comment.firstMatch (ofChars text) s j := hij.trans Comment.le_firstMatch
    simp [not_of_lt_seek hle hlt] at hm
  rw [← hfirst]
  rcases Nat.lt_or_ge (Comment.firstMatch (ofChars text) s j) (ofChars text).size with hlt | hge
  case inl =>
    obtain ⟨hj, hjle⟩ := behindFirst_of_lt_size hlt
    obtain ⟨hi, _⟩ := behindFirst_of_lt_size (hmono.trans_lt hlt)
    omega
  case inr =>
    rw [behindFirst_of_size_le hge]
    constructor
    case mp => exact fun h => .inr h.symm
    case mpr =>
      rintro (h | h)
      case inl => rw [behindFirst_of_size_le (h ▸ hge)]
      case inr => exact h.symm

end Buffer

namespace Skip

variable {profile : Profile} {buf : Buffer} {i n : Nat} {closer : String}

-- Where comments do not nest, the first closer ends a comment, whatever symbols it has.
theorem closeComments_unnested (h : profile.blockCommentsNest = false) (hi : i ≤ buf.size) :
    closeComments profile buf i [closer] = buf.behindFirst closer i := by
  have hle : Comment.firstMatch buf closer i ≤ buf.size := Buffer.seek_le _ hi
  rw [Comment.closeComments_from Comment.le_firstMatch hle
    (fun k hk hk' => Buffer.not_of_lt_seek hk hk') fun k _ _ => by simp [h]]
  rcases Nat.lt_or_eq_of_le hle with hlt | heq
  case inl =>
    obtain ⟨j, hj⟩ : ∃ j, buf.skip? (Comment.firstMatch buf closer i) closer false = some j := by
      rw [← Option.ne_none_iff_exists', ne_eq, skip?_eq_none_iff, Bool.not_eq_false]
      exact Comment.matchesAt_firstMatch hlt
    rw [closeComments_close hlt hj, closeComments, Buffer.behindFirst, hj, Option.getD_some]
  case inr =>
    have hge := Nat.le_of_eq heq.symm
    rw [Buffer.behindFirst_of_size_le hge, closeComments_end hge, heq]

-- The symbol is passed as so many characters as it has bytes. For a symbol beyond ASCII these are
-- too many, and the first tokens of the comment are passed with it.
theorem comment_resumes_behind_symbol (profile : Profile) (text : List Char) (i : Nat) :
    let buf := Buffer.ofChars text
    (∀ s n, lineSymbol? profile buf i = some s → buf.matchLength? i s false = some n →
      let resumed := buf.afterChars (i + n) (surplus s)
      ((∀ c ∈ s.toList, c.toNat < 0x80) → resumed = i + n) ∧
      lineComment? profile buf i = some (buf.firstLineBreak resumed) ∧
      (lineComment? profile buf i = some (buf.firstLineBreak (i + n)) ↔
        ∀ k, i + n ≤ k → k < resumed → buf.isLineBreak k = false)) ∧
    (profile.blockCommentsNest = false → ∀ s n, blockSymbols? profile buf i = some s →
      buf.matchLength? i s.opener false = some n →
      let resumed := buf.afterChars (i + n) (surplus s.opener)
      ((∀ c ∈ s.opener.toList, c.toNat < 0x80) → resumed = i + n) ∧
      blockComment? profile buf i = some (buf.behindFirst s.closer resumed) ∧
      (blockComment? profile buf i = some (buf.behindFirst s.closer (i + n)) ↔
        (∀ k, i + n ≤ k → k < resumed → buf.matchesAt k s.closer = false) ∨
          buf.behindFirst s.closer (i + n) = buf.size)) := by
  intro buf
  -- The symbol lies in the text, and so does all that is passed behind it.
  have hbounds {s : String} {n : Nat} (h : buf.matchLength? i s false = some n) :
      i + n ≤ buf.afterChars (i + n) (surplus s) ∧
        buf.afterChars (i + n) (surplus s) ≤ buf.size := by
    have hle : i + n ≤ buf.size := buf.skip?_le (by rw [Buffer.skip?, h, Option.map_some])
    exact ⟨buf.le_afterChars .., buf.afterChars_le hle⟩
  constructor
  case left =>
    intro s n hs hn resumed
    obtain ⟨hle, hsize⟩ := hbounds hn
    have heq : lineComment? profile buf i = some (buf.firstLineBreak resumed) := by
      rw [lineComment?, hs, Option.map_some, Buffer.afterChars_of_matchLength? hn]
      rfl
    refine ⟨buf.afterChars_surplus _, heq, ?_⟩
    rw [heq, Option.some.injEq]
    exact Buffer.seek_eq_seek_iff hle hsize
  case right =>
    intro hnest s n hs hn resumed
    obtain ⟨hle, hsize⟩ := hbounds hn
    have heq : blockComment? profile buf i = some (buf.behindFirst s.closer resumed) := by
      rw [blockComment?, hs, Option.map_some, Buffer.afterChars_of_matchLength? hn,
        closeComments_unnested hnest hsize]
    refine ⟨buf.afterChars_surplus _, heq, ?_⟩
    rw [heq, Option.some.injEq]
    exact Buffer.behindFirst_eq_iff hle hsize

-- A line comment whose symbol has two bytes and a block comment whose opener has one byte more than
-- characters; a space is passed behind either.
theorem comment_resumes_behind_symbol_space :
    let profile := { Profile.plain with
      lineComments := ["§"], blockComments := [⟨"«*", "*»"⟩] }
    (lineComment? profile (.ofChars "§ a\nb".toList) 0 = some 3) ∧
      (blockComment? profile (.ofChars "«* *» b".toList) 0 = some 5) := by
  intro profile
  have hline := (comment_resumes_behind_symbol profile "§ a\nb".toList 0).1 "§" 1
    (by decide +kernel) (by decide +kernel)
  have hblock := (comment_resumes_behind_symbol profile "«* *» b".toList 0).2 rfl ⟨"«*", "*»"⟩ 2
    (by decide +kernel) (by decide +kernel)
  have hbreak : (Buffer.ofChars "§ a\nb".toList).firstLineBreak (0 + 1) = 3 := by decide +kernel
  have hcloser : (Buffer.ofChars "«* *» b".toList).behindFirst "*»" (0 + 2) = 5 := by
    decide +kernel
  rw [← hbreak, ← hcloser]
  exact ⟨hline.2.2.mpr (by decide +kernel), hblock.2.2.mpr (.inl (by decide +kernel))⟩

-- The line break behind the symbol is passed as its second byte, and the first closer as the third.
theorem bytes_passed_as_characters :
    let profile := { Profile.plain with
      lineComments := ["§"], blockComments := [⟨"§(", ")"⟩] }
    lineComment? profile (.ofChars "§\nint x;".toList) 0 = some 6 ∧
      (Buffer.ofChars "§\nint x;".toList).firstLineBreak 1 = 1 ∧
      blockComment? profile (.ofChars "§() )".toList) 0 = some 5 ∧
      (Buffer.ofChars "§() )".toList).behindFirst ")" 2 = 3 := by
  decide +kernel

end Skip
end SourceDocs

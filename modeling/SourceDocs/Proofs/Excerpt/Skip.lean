import SourceDocs.Proofs.Nesting

namespace SourceDocs

-- The tokens of `sub` stand in `buf` from `o` on, and behind them a blank or the end of a
-- parameter.
structure Excerpt (buf sub : Buffer) (o : Nat) : Prop where
  tokens_eq : ∀ k, k < sub.size → sub.tokens[k]? = buf.tokens[o + k]?
  wellFormed : buf.WellFormed
  behind : buf.isBlank (o + sub.size) = true ∨
    ∃ c ∈ ",;)]\x7d".toList, buf.isChar (o + sub.size) c = true

namespace Excerpt

variable {profile : Profile} {buf sub : Buffer} {o k p : Nat} {c : Char}

section Reading

variable (h : Excerpt buf sub o)

include h

theorem lt_size : o + sub.size < buf.size := by
  rcases h.behind with hb | ⟨c, -, hc⟩
  case inl =>
    obtain ⟨t, ht, -⟩ := Buffer.isBlank_iff.mp hb
    exact Buffer.lt_size_of_token ht
  case inr => exact buf.lt_size_of_isChar hc

theorem wellFormed_sub : sub.WellFormed := by
  intro t ht
  obtain ⟨k, hk, rfl⟩ := Array.mem_iff_getElem.mp ht
  have := h.tokens_eq k hk
  rw [Array.getElem?_eq_getElem hk] at this
  exact h.wellFormed.token this.symm

variable (hk : k < sub.size)

include hk

theorem kind?_eq : sub.kind? k = buf.kind? (o + k) := by
  simp only [Buffer.kind?, h.tokens_eq k hk]

theorem chars_eq : sub.chars k = buf.chars (o + k) := by
  simp only [Buffer.chars, h.tokens_eq k hk]

theorem isText_eq : sub.isText k = buf.isText (o + k) := by
  simp only [Buffer.isText, h.kind?_eq hk]

theorem isBlank_eq : sub.isBlank k = buf.isBlank (o + k) := by
  simp only [Buffer.isBlank, h.kind?_eq hk]

theorem isLineBreak_eq : sub.isLineBreak k = buf.isLineBreak (o + k) := by
  simp only [Buffer.isLineBreak, h.kind?_eq hk]

theorem symbol?_eq : sub.symbol? k = buf.symbol? (o + k) := by
  simp [Buffer.symbol?, Buffer.isSymbol, h.kind?_eq hk, h.chars_eq hk]

theorem isChar_eq : sub.isChar k c = buf.isChar (o + k) c := by
  simp only [Buffer.isChar, h.symbol?_eq hk]

theorem isToken_eq (s : String) : sub.isToken k s = buf.isToken (o + k) s := by
  have := h.lt_size
  simp [Buffer.isToken, h.chars_eq hk, hk, show o + k < buf.size by omega]

end Reading

theorem isChar_end (hk : sub.size ≤ k) : sub.isChar k c = false := by
  rw [Bool.eq_false_iff]
  intro hc
  have := sub.lt_size_of_isChar hc
  omega

theorem not_isChar_end (h : Excerpt buf sub o) (hc : c ∉ ",;)]\x7d".toList) :
    buf.isChar (o + sub.size) c = false := by
  rw [Bool.eq_false_iff]
  intro hs
  rcases h.behind with hb | ⟨d, hd, hds⟩
  case inl => simp [Buffer.not_isBlank_of_isChar hs] at hb
  case inr => exact hc (Buffer.eq_of_isChar hs hds ▸ hd)

-- A reading of the next token may be one of the token behind the part.
theorem isChar_eq_of_le (h : Excerpt buf sub o) (hk : k ≤ sub.size) (hc : c ∉ ",;)]\x7d".toList) :
    sub.isChar k c = buf.isChar (o + k) c := by
  rcases Nat.lt_or_eq_of_le hk with hk | rfl
  case inl => exact h.isChar_eq hk
  case inr => rw [isChar_end (Nat.le_refl _), h.not_isChar_end hc]

theorem spells_eq (h : Excerpt buf sub o) (hk : k ≤ sub.size) (cs : List Char) :
    sub.spells k cs = (buf.spells (o + k) cs && decide (k + cs.length ≤ sub.size)) := by
  induction cs generalizing k
  case nil => simp [Buffer.spells, hk]
  case cons c cs hi =>
    rcases Nat.lt_or_eq_of_le hk with hk | rfl
    case inl =>
      have hi := hi (show k + 1 ≤ sub.size from hk)
      rw [show k + 1 + cs.length = k + (cs.length + 1) by omega] at hi
      simp only [Buffer.spells, h.isChar_eq hk, hi, Nat.add_assoc, List.length_cons,
        Bool.and_assoc]
    case inr => simp [Buffer.spells, isChar_end (Nat.le_refl _)]

theorem doubleColon_eq (h : Excerpt buf sub o) (hk : k < sub.size) :
    sub.matchesAt k "::" = buf.matchesAt (o + k) "::" := by
  rw [Buffer.matchesAt_doubleColon h.wellFormed_sub, Buffer.matchesAt_doubleColon h.wellFormed,
    h.isChar_eq hk, h.isChar_eq_of_le hk (by decide), Nat.add_assoc]

theorem assign_eq (h : Excerpt buf sub o) (hk : k < sub.size) :
    sub.matchesAt k ":=" = buf.matchesAt (o + k) ":=" := by
  rw [Buffer.matchesAt_assign h.wellFormed_sub, Buffer.matchesAt_assign h.wellFormed,
    h.isChar_eq hk, h.isChar_eq_of_le hk (by decide), Nat.add_assoc]

theorem matchesAt_eq (h : Excerpt buf sub o) (hk : k ≤ sub.size) {s : String} (hs : IsSymbolic s)
    (hfit : buf.matchesAt (o + k) s = true →
      buf.afterChars (o + k) s.utf8ByteSize ≤ o + sub.size) :
    sub.matchesAt k s = buf.matchesAt (o + k) s := by
  rw [Buffer.matchesAt_symbols h.wellFormed_sub hs.2]
  rw [Buffer.matchesAt_symbols h.wellFormed hs.2] at hfit ⊢
  rw [h.spells_eq hk]
  cases hsp : buf.spells (o + k) s.toList
  case false => simp
  case true =>
    have hle := hfit (by simpa [hsp] using hs.1)
    have := h.wellFormed.add_length_le_afterChars hsp (length_le_utf8ByteSize s)
    simp [show k + s.toList.length ≤ sub.size by omega]

-- The part may lack a symbol that runs over its end, but not the first one if that fits.
theorem find?_eq (h : Excerpt buf sub o) (hk : k ≤ sub.size) {α : Type} {f : α → String}
    {xs : List α} (hs : ∀ x ∈ xs, IsSymbolic (f x))
    (hfit : ∀ x, xs.find? (fun x => buf.matchesAt (o + k) (f x)) = some x →
      buf.afterChars (o + k) (f x).utf8ByteSize ≤ o + sub.size) :
    xs.find? (fun x => sub.matchesAt k (f x)) = xs.find? fun x => buf.matchesAt (o + k) (f x) := by
  induction xs
  case nil => rfl
  case cons x xs hi =>
    have hx : sub.matchesAt k (f x) = buf.matchesAt (o + k) (f x) :=
      h.matchesAt_eq hk (hs x (.head _)) fun hm => hfit x (by simp [hm])
    simp only [List.find?_cons, hx]
    cases hm : buf.matchesAt (o + k) (f x)
    case true => rfl
    case false => exact hi (fun y hy => hs y (.tail _ hy)) fun y hy => hfit y (by simp [hm, hy])

theorem afterChars_eq (h : Excerpt buf sub o) (hk : k ≤ sub.size) {m : Nat}
    (hle : buf.afterChars (o + k) m ≤ o + sub.size) :
    buf.afterChars (o + k) m = o + sub.afterChars k m := by
  have hlt := h.lt_size
  fun_induction Buffer.afterChars sub k m
  case case1 k m hm hi =>
    rw [Buffer.afterChars, if_pos ⟨by omega, hm.2⟩, ← h.chars_eq hm.1] at hle ⊢
    exact hi hm.1 hle
  case case2 k m hm =>
    by_cases hm₀ : 0 < m
    case pos =>
      have := buf.lt_afterChars (i := o + k) (by omega) hm₀
      have : ¬k < sub.size := fun hk => hm ⟨hk, hm₀⟩
      omega
    case neg => rw [Buffer.afterChars, if_neg (by omega)]

theorem seek_eq_of_le (h : Excerpt buf sub o) (hks : k ≤ sub.size)
    (hle : Buffer.seek buf.isLineBreak (o + k) buf.size ≤ o + sub.size) :
    Buffer.seek buf.isLineBreak (o + k) buf.size =
      o + Buffer.seek sub.isLineBreak k sub.size := by
  have hlt := h.lt_size
  fun_induction Buffer.seek sub.isLineBreak k sub.size
  case case1 k hk hb => exact Buffer.seek_hit (by omega) (h.isLineBreak_eq hk ▸ hb)
  case case2 k hk hb hi =>
    rw [h.isLineBreak_eq hk, Bool.not_eq_true] at hb
    rw [Buffer.seek_miss (by omega) hb] at hle ⊢
    exact hi hk hle
  case case3 k hk =>
    have := Buffer.le_seek buf.isLineBreak (o + k) buf.size
    omega

theorem lineComment?_eq (h : Excerpt buf sub o) (hp : profile.Separate) (hk : k < sub.size)
    (hfit : ∀ j, Skip.lineComment? profile buf (o + k) = some j → j ≤ o + sub.size) :
    Skip.lineComment? profile buf (o + k) = (Skip.lineComment? profile sub k).map (o + ·) := by
  have hsymbol : Skip.lineSymbol? profile sub k = Skip.lineSymbol? profile buf (o + k) := by
    refine h.find?_eq (f := id) (Nat.le_of_lt hk) (fun s hs => ?starter) fun s hs => ?fits
    case starter => exact hp.symbols s (by simp [Profile.starters, hs])
    case fits => exact (Buffer.le_seek ..).trans (hfit _ (congrArg (Option.map _) hs))
  simp only [Skip.lineComment?, hsymbol, Option.map_map]
  cases hs : Skip.lineSymbol? profile buf (o + k)
  case none => rfl
  case some s =>
    have hle : Buffer.seek buf.isLineBreak (buf.afterChars (o + k) s.utf8ByteSize) buf.size ≤
        o + sub.size := hfit _ (congrArg (Option.map _) hs)
    have hac := h.afterChars_eq (Nat.le_of_lt hk) ((Buffer.le_seek ..).trans hle)
    rw [hac] at hle
    simp only [Option.map_some, Function.comp_apply, hac,
      h.seek_eq_of_le (sub.afterChars_le (Nat.le_of_lt hk)) hle]

theorem blockSymbols?_eq (h : Excerpt buf sub o) (hp : profile.Separate) (hk : k ≤ sub.size)
    (hfit : ∀ s, Skip.blockSymbols? profile buf (o + k) = some s →
      buf.afterChars (o + k) s.opener.utf8ByteSize ≤ o + sub.size) :
    Skip.blockSymbols? profile sub k = Skip.blockSymbols? profile buf (o + k) := by
  refine h.find?_eq (f := BlockSymbols.opener) hk (fun s hs => hp.symbols _ ?_) hfit
  exact List.mem_append_left _ (List.mem_append_right _ (List.mem_map_of_mem hs))

theorem skip?_eq (h : Excerpt buf sub o) (hk : k ≤ sub.size) {s : String} (hs : IsSymbolic s)
    (hfit : ∀ j, buf.skip? (o + k) s false = some j → j ≤ o + sub.size) :
    buf.skip? (o + k) s false = (sub.skip? k s false).map (o + ·) := by
  rw [Skip.skip?_eq h.wellFormed hs] at hfit ⊢
  rw [Skip.skip?_eq h.wellFormed_sub hs, h.spells_eq hk]
  cases hsp : buf.spells (o + k) s.toList
  case false => rfl
  case true =>
    have := hfit _ (if_pos hsp)
    simp [show k + s.toList.length ≤ sub.size by omega, Nat.add_assoc]

theorem closeComments_eq (h : Excerpt buf sub o) (hp : profile.Separate) {closers : List String}
    (hc : ∀ s ∈ closers, IsSymbolic s) (hk : k ≤ sub.size)
    (hle : Skip.closeComments profile buf (o + k) closers ≤ o + sub.size) :
    Skip.closeComments profile buf (o + k) closers =
      o + Skip.closeComments profile sub k closers := by
  have hlt := h.lt_size
  have hge := Skip.le_closeComments profile buf
  -- The skip ends within the part, and so do the symbols that it meets on its way.
  have hskip {k : Nat} {closer : String} {outer : List String} (hk : k < sub.size)
      (hc : IsSymbolic closer)
      (hle : Skip.closeComments profile buf (o + k) (closer :: outer) ≤ o + sub.size) :
      buf.skip? (o + k) closer false = (sub.skip? k closer false).map (o + ·) := by
    refine h.skip?_eq (Nat.le_of_lt hk) hc fun j hj => ?_
    rw [Skip.closeComments_close (by omega) hj] at hle
    exact (hge j outer).trans hle
  have hopen {k : Nat} {closer : String} {outer : List String} (hk : k < sub.size)
      (hn : buf.skip? (o + k) closer false = none)
      (hle : Skip.closeComments profile buf (o + k) (closer :: outer) ≤ o + sub.size) :
      (if profile.blockCommentsNest then Skip.blockSymbols? profile buf (o + k) else none) =
        if profile.blockCommentsNest then Skip.blockSymbols? profile sub k else none := by
    split
    case isFalse => rfl
    case isTrue hnest =>
      refine (h.blockSymbols?_eq hp (Nat.le_of_lt hk) fun s hs => ?_).symm
      rw [Skip.closeComments_open (by omega) hn (by rw [if_pos hnest, hs])] at hle
      exact (hge ..).trans hle
  fun_induction Skip.closeComments profile sub k closers
  case case1 => simp [Skip.closeComments]
  case case2 k closer outer hk' j hj hi =>
    have hj' := hskip hk' (hc closer (.head _)) hle
    rw [hj, Option.map_some] at hj'
    rw [Skip.closeComments_close (by omega) hj'] at hle ⊢
    exact hi (fun s hs => hc s (.tail _ hs)) (sub.skip?_le hj) hle
  case case3 k closer outer hk' hn s hs hi =>
    have hn' := hskip hk' (hc closer (.head _)) hle
    rw [hn, Option.map_none] at hn'
    have hs' := (hopen hk' hn' hle).trans hs
    rw [Skip.closeComments_open (by omega) hn' hs'] at hle ⊢
    have hac := h.afterChars_eq (Nat.le_of_lt hk') ((hge ..).trans hle)
    rw [hac] at hle ⊢
    refine hi (fun t ht => ?_) (sub.afterChars_le (Nat.le_of_lt hk')) hle
    cases ht
    case head =>
      split at hs
      case isTrue => exact Skip.isSymbolic_of_blockSymbols? hp hs
      case isFalse => cases hs
    case tail ht => exact hc t ht
  case case4 k closer outer hk' hn hs hi =>
    have hn' := hskip hk' (hc closer (.head _)) hle
    rw [hn, Option.map_none] at hn'
    have hs' := (hopen hk' hn' hle).trans hs
    rw [Skip.closeComments_other (by omega) hn' hs'] at hle ⊢
    exact hi hc hk' hle
  case case5 k closer outer hk' =>
    have := hge (o + k) (closer :: outer)
    omega

theorem blockComment?_eq (h : Excerpt buf sub o) (hp : profile.Separate) (hk : k < sub.size)
    (hfit : ∀ j, Skip.blockComment? profile buf (o + k) = some j → j ≤ o + sub.size) :
    Skip.blockComment? profile buf (o + k) = (Skip.blockComment? profile sub k).map (o + ·) := by
  have hge := Skip.le_closeComments profile buf
  have hsymbols := h.blockSymbols?_eq hp (Nat.le_of_lt hk) fun s hs =>
    (hge _ [s.closer]).trans (hfit _ (congrArg (Option.map _) hs))
  simp only [Skip.blockComment?, hsymbols]
  cases hs : Skip.blockSymbols? profile buf (o + k)
  case none => rfl
  case some s =>
    have hle : Skip.closeComments profile buf (buf.afterChars (o + k) s.opener.utf8ByteSize)
        [s.closer] ≤ o + sub.size := hfit _ (congrArg (Option.map _) hs)
    have hac := h.afterChars_eq (Nat.le_of_lt hk) ((hge ..).trans hle)
    have hc : ∀ t ∈ [s.closer], IsSymbolic t := by
      simpa using Skip.isSymbolic_of_blockSymbols? hp hs
    rw [hac] at hle
    simp only [Option.map_some, hac,
      h.closeComments_eq hp hc (sub.afterChars_le (Nat.le_of_lt hk)) hle]

-- Of two readings the first one that finds something counts.
theorem or_eq {a b a' b' : Option Nat} (hfit : ∀ j, a.or b = some j → j ≤ o + sub.size)
    (ha : (∀ j, a = some j → j ≤ o + sub.size) → a = a'.map (o + ·))
    (hb : (∀ j, b = some j → j ≤ o + sub.size) → b = b'.map (o + ·)) :
    a.or b = (a'.or b').map (o + ·) := by
  cases a
  case none =>
    have ha := ha fun j hj => nomatch hj
    rw [eq_comm, Option.map_eq_none_iff] at ha
    subst ha
    exact hb hfit
  case some j =>
    have ha := ha hfit
    rw [eq_comm, Option.map_eq_some_iff] at ha
    obtain ⟨j', rfl, rfl⟩ := ha
    rfl

theorem comment?_eq (h : Excerpt buf sub o) (hp : profile.Separate) (hk : k < sub.size)
    (hfit : ∀ j, Skip.comment? profile buf (o + k) = some j → j ≤ o + sub.size) :
    Skip.comment? profile buf (o + k) = (Skip.comment? profile sub k).map (o + ·) :=
  or_eq hfit (h.blockComment?_eq hp hk) (h.lineComment?_eq hp hk)

theorem closeString_eq (h : Excerpt buf sub o) {quote : Char} (hk : k ≤ sub.size)
    (hle : Skip.closeString buf quote (o + k) ≤ o + sub.size) :
    Skip.closeString buf quote (o + k) = o + Skip.closeString sub quote k := by
  have hlt := h.lt_size
  have hge := Skip.le_closeString buf quote
  fun_induction Skip.closeString sub quote k
  case case1 k hk' hc =>
    rw [Skip.closeString, if_pos (by omega), if_pos (h.isChar_eq hk' ▸ hc), Nat.add_assoc]
  case case2 k hk' hc hs hi =>
    rw [Skip.closeString, if_pos (by omega), if_neg (h.isChar_eq hk' ▸ hc),
      if_pos (h.isChar_eq hk' ▸ hs)] at hle ⊢
    have := (hge _).trans hle
    rw [show min (o + k + 2) buf.size = o + min (k + 2) sub.size by omega] at hle ⊢
    exact hi (by omega) hle
  case case3 k hk' hc hs hi =>
    rw [Skip.closeString, if_pos (by omega), if_neg (h.isChar_eq hk' ▸ hc),
      if_neg (h.isChar_eq hk' ▸ hs)] at hle ⊢
    exact hi hk' hle
  case case4 k hk' =>
    have := hge (o + k)
    omega

theorem string?_eq (h : Excerpt buf sub o) (hk : k < sub.size)
    (hfit : ∀ j, Skip.string? buf (o + k) = some j → j ≤ o + sub.size) :
    Skip.string? buf (o + k) = (Skip.string? sub k).map (o + ·) := by
  unfold Skip.string? at hfit ⊢
  rw [h.symbol?_eq hk]
  cases hc : buf.symbol? (o + k)
  case none => rfl
  case some c =>
    simp only [hc] at hfit ⊢
    split
    case isFalse => rfl
    case isTrue hq => rw [Option.map_some, Nat.add_assoc, h.closeString_eq hk (hfit _ (if_pos hq))]

theorem quoted?_eq (h : Excerpt buf sub o) (hp : profile.Separate) (hk : k < sub.size)
    (hfit : ∀ j, Skip.quoted? profile buf (o + k) = some j → j ≤ o + sub.size) :
    Skip.quoted? profile buf (o + k) = (Skip.quoted? profile sub k).map (o + ·) :=
  or_eq hfit (h.comment?_eq hp hk) (h.string?_eq hk)

theorem opens?_eq (h : Excerpt buf sub o) (hk : k < sub.size) (angle : Bool) :
    Skip.opens? sub angle k = Skip.opens? buf angle (o + k) := by
  rw [Skip.opens?, Skip.opens?, h.symbol?_eq hk]

theorem closeBlocks_eq (h : Excerpt buf sub o) (hp : profile.Separate) {angle : Bool}
    {closers : List Char} (hk : k ≤ sub.size)
    (hle : Skip.closeBlocks profile buf angle (o + k) closers ≤ o + sub.size) :
    Skip.closeBlocks profile buf angle (o + k) closers =
      o + Skip.closeBlocks profile sub angle k closers := by
  have hlt := h.lt_size
  have hge := Skip.le_closeBlocks profile buf angle
  -- What is quoted in a block that ends within the part ends there too.
  have hquoted {k : Nat} {closer : Char} {outer : List Char} (hk : k < sub.size)
      (hn : Skip.opens? buf angle (o + k) = none) (hc : buf.isChar (o + k) closer = false)
      (hle : Skip.closeBlocks profile buf angle (o + k) (closer :: outer) ≤ o + sub.size) :
      Skip.quoted? profile buf (o + k) = (Skip.quoted? profile sub k).map (o + ·) := by
    refine h.quoted?_eq hp hk fun j hj => ?_
    rw [Skip.closeBlocks_quoted (by omega) hn hc hj] at hle
    exact (hge ..).trans hle
  fun_induction Skip.closeBlocks profile sub angle k closers
  case case1 => rw [Skip.closeBlocks_nil]
  case case2 k closer outer hk' c hc hi =>
    rw [h.opens?_eq hk'] at hc
    rw [Skip.closeBlocks_open (by omega) hc] at hle ⊢
    exact hi hk' hle
  case case3 k closer outer hk' hn hc hi =>
    rw [h.opens?_eq hk'] at hn
    rw [h.isChar_eq hk'] at hc
    rw [Skip.closeBlocks_close (by omega) hn hc] at hle ⊢
    exact hi hk' hle
  case case4 k closer outer hk' hn hc j hj hi =>
    rw [h.opens?_eq hk'] at hn
    rw [h.isChar_eq hk', Bool.not_eq_true] at hc
    have hj' := hquoted hk' hn hc hle
    rw [hj, Option.map_some] at hj'
    rw [Skip.closeBlocks_quoted (by omega) hn hc hj'] at hle ⊢
    have := (hge ..).trans hle
    exact hi (by omega) hle
  case case5 k closer outer hk' hn hc hq hi =>
    rw [h.opens?_eq hk'] at hn
    rw [h.isChar_eq hk', Bool.not_eq_true] at hc
    have hq' := hquoted hk' hn hc hle
    rw [hq, Option.map_none] at hq'
    rw [Skip.closeBlocks_other (by omega) hn hc hq'] at hle ⊢
    exact hi hk' hle
  case case6 k closer outer hk' =>
    have := hge (o + k) (closer :: outer)
    omega

theorem block?_eq (h : Excerpt buf sub o) (hp : profile.Separate) (hk : k < sub.size)
    {angle : Bool}
    (hfit : ∀ j, Skip.block? profile buf angle (o + k) = some j → j ≤ o + sub.size) :
    Skip.block? profile buf angle (o + k) = (Skip.block? profile sub angle k).map (o + ·) := by
  unfold Skip.block? at hfit ⊢
  rw [h.opens?_eq hk]
  cases hc : Skip.opens? buf angle (o + k)
  case none => rfl
  case some c =>
    rw [hc] at hfit
    simp only [Option.map_some, Nat.add_assoc, h.closeBlocks_eq hp hk (hfit _ rfl)]

theorem enclosed?_eq (h : Excerpt buf sub o) (hp : profile.Separate) (hk : k < sub.size)
    {angle : Bool}
    (hfit : ∀ j, Skip.enclosed? profile buf angle (o + k) = some j → j ≤ o + sub.size) :
    Skip.enclosed? profile buf angle (o + k) =
      (Skip.enclosed? profile sub angle k).map (o + ·) :=
  or_eq hfit (h.quoted?_eq hp hk) (h.block?_eq hp hk)

end Excerpt
end SourceDocs

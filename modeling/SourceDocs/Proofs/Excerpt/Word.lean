import SourceDocs.Proofs.Excerpt.Skip
import SourceDocs.Proofs.Roles

namespace SourceDocs

-- What starts before `e` in the part, outside of comments and strings, ends there at the latest.
-- Positions count as outside if they are reached from `a`.
structure Sealed (profile : Profile) (buf sub : Buffer) (o a e : Nat) : Prop
    extends Excerpt buf sub o where
  separate : profile.Separate
  le_size : e ≤ sub.size
  ends : ∀ p, Skip.Reach profile buf a p → p < o + e → Skip.Ends profile buf p (o + e)

namespace Excerpt

variable {profile : Profile} {buf sub : Buffer} {o k l m : Nat}

theorem isNameSymbol_eq (h : Excerpt buf sub o) (hk : k < sub.size) :
    Skip.isNameSymbol sub k = Skip.isNameSymbol buf (o + k) := by
  rw [Skip.isNameSymbol, Skip.isNameSymbol, h.symbol?_eq hk]

theorem isPointer_eq (h : Excerpt buf sub o) (hk : k < sub.size) :
    Skip.isPointer sub k = Skip.isPointer buf (o + k) := by
  rw [Skip.isPointer, Skip.isPointer, h.symbol?_eq hk]

theorem isNamePart_eq (h : Excerpt buf sub o) (hk : k < sub.size) :
    (sub.isText k || Skip.isNameSymbol sub k || sub.isChar k '.' || sub.isChar k '?') =
      (buf.isText (o + k) || Skip.isNameSymbol buf (o + k) || buf.isChar (o + k) '.' ||
        buf.isChar (o + k) '?') := by
  rw [h.isText_eq hk, h.isNameSymbol_eq hk, h.isChar_eq hk, h.isChar_eq hk]

theorem isTypeSuffix_eq (h : Excerpt buf sub o) (hk : k < sub.size) :
    Skip.isTypeSuffix sub k = Skip.isTypeSuffix buf (o + k) := by
  rw [Skip.isTypeSuffix, Skip.isTypeSuffix, h.isPointer_eq hk, h.isToken_eq hk,
    h.isChar_eq_of_le hk (by decide), Nat.add_assoc]

theorem seek_eq {p q : Nat → Bool} (hpq : ∀ m, k ≤ m → m < l → p m = q (o + m)) :
    Buffer.seek q (o + k) (o + l) = o + Buffer.seek p k l := by
  fun_induction Buffer.seek p k l
  case case1 hk hp => exact Buffer.seek_hit (by omega) (hpq _ (Nat.le_refl _) hk ▸ hp)
  case case2 hk hp hi =>
    rw [Buffer.seek_miss (by omega) (by rwa [← hpq _ (Nat.le_refl _) hk, ← Bool.not_eq_true])]
    exact hi fun m hm => hpq m (by omega)
  case case3 => exact Buffer.seek_end (by omega)

theorem afterBlanks_eq (h : Excerpt buf sub o) (hl : l ≤ sub.size) :
    buf.afterBlanks (o + k) (o + l) = o + sub.afterBlanks k l :=
  seek_eq fun m _ hm => by rw [h.isBlank_eq (show m < sub.size by omega)]

theorem afterSuffixes_eq (h : Excerpt buf sub o) (hl : l ≤ sub.size) :
    Skip.afterSuffixes buf (o + l) (o + k) (o + m) = o + Skip.afterSuffixes sub l k m := by
  fun_induction Skip.afterSuffixes sub l k m
  case case1 k m hm hi =>
    rw [h.isTypeSuffix_eq (show m < sub.size by omega)] at hm
    rw [Skip.afterSuffixes, if_pos ⟨by omega, hm.2⟩, Nat.add_assoc, h.afterBlanks_eq hl]
    exact hi
  case case2 k m hm =>
    rw [Skip.afterSuffixes, if_neg]
    rintro ⟨hlt, hs⟩
    rw [h.isTypeSuffix_eq (show m < sub.size by omega)] at hm
    exact hm ⟨by omega, hs⟩

-- The search back stays in the part, since a token that is no blank stands there.
theorem lastNonBlank_eq (h : Excerpt buf sub o) (hk : k < sub.size) (hm : m ≤ k)
    (hb : sub.isBlank m = false) : buf.lastNonBlank (o + k) = o + sub.lastNonBlank k := by
  induction k
  case zero =>
    obtain rfl : m = 0 := by omega
    rw [h.isBlank_eq hk] at hb
    rw [Nat.add_zero] at hb ⊢
    cases o
    case zero => rfl
    case succ o => simp [Buffer.lastNonBlank, hb]
  case succ k hi =>
    rw [← Nat.add_assoc, Buffer.lastNonBlank, Buffer.lastNonBlank, h.isBlank_eq hk, ← Nat.add_assoc]
    split
    case isFalse => rfl
    case isTrue hblank =>
      refine hi (by omega) ?_
      by_contra hne
      obtain rfl : m = k + 1 := by omega
      rw [h.isBlank_eq hk, ← Nat.add_assoc, hblank] at hb
      cases hb

theorem lastNonBlank_le (buf : Buffer) (k : Nat) : buf.lastNonBlank k ≤ k := by
  fun_induction Buffer.lastNonBlank buf k <;> omega

end Excerpt

namespace Word

def shift (o : Nat) (w : Word) : Word :=
  ⟨o + w.start, o + w.stop, w.isBlock⟩

variable {profile : Profile} {buf : Buffer} {halt : Nat → Bool} {limit i : Nat} {w : Word}

theorem reach_of_at? (hb : buf.WellFormed) (hp : profile.Separate)
    (h : at? profile buf limit i = some w) (hlt : w.stop < limit) :
    Skip.Reach profile buf i w.stop := by
  unfold at? at h
  split at h
  case h_1 j hj =>
    cases h
    unfold Skip.name? at hj
    split at hj
    case isFalse => cases hj
    case isTrue hi =>
      obtain rfl := Option.some.inj hj
      dsimp only at hlt ⊢
      have hq := Skip.quoted?_eq_none_of_name hb hp (i := i) (by simp [hi.2])
      rw [Nat.min_eq_left (by omega)]
      exact .step hq (.nameEnd hb hp limit)
  case h_2 =>
    obtain ⟨j, hj, rfl⟩ := Option.map_eq_some_iff.mp h
    dsimp only at hlt ⊢
    rw [Nat.min_eq_left (by omega)]
    rcases Option.or_eq_some_iff.mp hj with hq | ⟨-, hj⟩
    case inl => exact .jump hq (.refl _)
    case inr => exact .block hb hp hj

theorem quoted?_eq_none_of_at? (h : at? profile buf limit i = none) :
    Skip.quoted? profile buf i = none := by
  unfold at? at h
  split at h
  case h_1 => cases h
  case h_2 => exact (Option.or_eq_none_iff.mp (Option.map_eq_none_iff.mp h)).1

theorem reach_read (hb : buf.WellFormed) (hp : profile.Separate)
    (h : (read profile buf halt limit i).2 < limit) :
    Skip.Reach profile buf i (read profile buf halt limit i).2 := by
  fun_induction read profile buf halt limit i
  case case2 w hw _ ih =>
    refine .trans (reach_of_at? hb hp hw ?_) (ih h)
    exact (le_read profile buf halt limit w.stop).trans_lt h
  case case3 hw ih => exact .step (quoted?_eq_none_of_at? hw) (ih h)
  all_goals exact .refl _

end Word

namespace Sealed

open Excerpt

variable {profile : Profile} {buf sub : Buffer} {o a e k l : Nat}

-- A block shuts in what stands in it.
theorem of_block (h : Excerpt buf sub o) (hp : profile.Separate) {j : Nat} (hj : j ≤ sub.size)
    (hb : Skip.block? profile buf true (o + k) = some (o + j)) :
    Sealed profile buf sub o (o + k) j := by
  refine ⟨h, hp, hj, fun p hr hlt => ?_⟩
  obtain ⟨c, hc, hclose⟩ := Option.map_eq_some_iff.mp hb
  have hclosers : Skip.AreClosers [] := fun _ hd => nomatch hd
  rw [← hclose]
  rcases hr.of_step (Skip.quoted?_eq_none_of_opens? h.wellFormed hp hc) with rfl | hr
  case inl => exact .of_opens h.wellFormed hp hc hclosers
  case inr =>
    rcases Skip.closeBlocks_ends h.wellFormed hp (hclosers.cons hc) hr with hr | hends
    case inl =>
      have := hr.le
      omega
    case inr => exact hends

theorem block?_eq (h : Sealed profile buf sub o a e) (hk : k < e)
    (hr : Skip.Reach profile buf a (o + k)) (angle : Bool) :
    Skip.block? profile buf angle (o + k) = (Skip.block? profile sub angle k).map (o + ·) := by
  have := h.le_size
  refine h.toExcerpt.block?_eq h.separate (by omega) fun j hj => ?_
  have := (h.ends _ hr (by omega)).block angle j hj
  omega

theorem enclosed?_eq (h : Sealed profile buf sub o a e) (hk : k < e)
    (hr : Skip.Reach profile buf a (o + k)) :
    Skip.enclosed? profile buf true (o + k) = (Skip.enclosed? profile sub true k).map (o + ·) := by
  have := h.le_size
  refine h.toExcerpt.enclosed?_eq h.separate (by omega) fun j hj => ?_
  have hends := h.ends _ hr (by omega)
  rcases Option.or_eq_some_iff.mp hj with hj | ⟨-, hj⟩
  case inl =>
    have := hends.quoted j hj
    omega
  case inr =>
    have := hends.block true j hj
    omega

-- Whether the word before is `operator` is seen in the part, which has a token before the bracket.
theorem typeArguments?_eq (h : Sealed profile buf sub o a e) (hk : k < l) (hl : l ≤ e)
    {m : Nat} (hm : m < k) (hb : sub.isBlank m = false)
    (hr : Skip.Reach profile buf a (o + k)) :
    Skip.typeArguments? profile buf (o + l) (o + k) =
      (Skip.typeArguments? profile sub l k).map (o + ·) := by
  have hle := h.le_size
  have hlast : buf.lastNonBlank (o + k - 1) = o + sub.lastNonBlank (k - 1) := by
    rw [← h.lastNonBlank_eq (by omega) (show m ≤ k - 1 by omega) hb]
    congr 1
    omega
  have hlt : sub.lastNonBlank (k - 1) < sub.size := by
    have := lastNonBlank_le sub (k - 1)
    omega
  unfold Skip.typeArguments?
  rw [hlast, ← h.isToken_eq hlt, h.block?_eq (by omega) hr true, Option.filter_map]
  split
  case isTrue => rfl
  case isFalse => simp [Function.comp_def]

-- One step of a name, as it is taken in the part.
theorem nameEnd_step (h : Sealed profile buf sub o a e) (hk : k < l) (hl : l ≤ e) {m : Nat}
    (hm : m < k) (hblank : sub.isBlank m = false) (hr : Skip.Reach profile buf a (o + k)) :
    Skip.nameEnd profile buf (o + l) (o + k) =
      if sub.isText k || Skip.isNameSymbol sub k || sub.isChar k '.' || sub.isChar k '?' then
        Skip.nameEnd profile buf (o + l) (o + (k + 1))
      else if sub.matchesAt k "::" then Skip.nameEnd profile buf (o + l) (o + (k + 2))
      else if sub.isChar k '<' then
        match Skip.typeArguments? profile sub l k with
        | some j => Skip.nameEnd profile buf (o + l) (o + j)
        | none =>
          Skip.nameEnd profile buf (o + l) (o + Buffer.seek (!sub.isChar · '<') (k + 1) l)
      else
        match Skip.block? profile sub false k with
        | some j => if j ≤ l then Skip.nameEnd profile buf (o + l) (o + j) else o + k
        | none =>
          if sub.isBlank k then o + Skip.afterSuffixes sub l k (sub.afterBlanks k l) else o + k := by
  have hle := h.le_size
  have hseek : Buffer.seek (!buf.isChar · '<') (o + (k + 1)) (o + l) =
      o + Buffer.seek (!sub.isChar · '<') (k + 1) l :=
    seek_eq fun m _ hm => by rw [h.isChar_eq (show m < sub.size by omega)]
  rw [Skip.nameEnd_eq_ite, if_pos (by omega), h.isNamePart_eq (by omega),
    h.doubleColon_eq (by omega), h.isChar_eq (by omega), h.isBlank_eq (by omega),
    h.typeArguments?_eq hk hl hm hblank hr, h.block?_eq (by omega) hr false,
    h.afterBlanks_eq (by omega), h.afterSuffixes_eq (by omega), Nat.add_assoc o k 1,
    Nat.add_assoc o k 2, hseek]
  cases Skip.typeArguments? profile sub l k <;> cases Skip.block? profile sub false k <;> simp

-- Every step ends outside of comments and strings again, where blocks end within the part.
theorem nameEnd_eq (h : Sealed profile buf sub o a e) (hl : l ≤ e) {m : Nat} (hm : m < k)
    (hblank : sub.isBlank m = false) (hr : Skip.Reach profile buf a (o + k)) :
    Skip.nameEnd profile buf (o + l) (o + k) = o + Skip.nameEnd profile sub l k := by
  have hle := h.le_size
  have hb := h.wellFormed
  have hp := h.separate
  fun_induction Skip.nameEnd profile sub l k
  case case1 k hk hc ih =>
    rw [h.nameEnd_step hk hl hm hblank hr, if_pos hc]
    rw [h.isNamePart_eq (by omega)] at hc
    exact ih (by omega) (hr.next (Skip.quoted?_eq_none_of_name hb hp hc))
  case case2 k hk hc hc₂ ih =>
    rw [h.nameEnd_step hk hl hm hblank hr, if_neg hc, if_pos hc₂]
    rw [h.doubleColon_eq (by omega), Buffer.matchesAt_doubleColon hb, Bool.and_eq_true] at hc₂
    refine ih (by omega) ((hr.next ?first).next ?second)
    case first => exact Skip.quoted?_eq_none_of_isChar hb hp hc₂.1 (by decide)
    case second => exact Skip.quoted?_eq_none_of_isChar hb hp hc₂.2 (by decide)
  case case3 k hk hc hc₂ ha j hj ih =>
    have hj' := h.typeArguments?_eq hk hl hm hblank hr
    have hlt := Skip.lt_typeArguments? profile sub hj
    rw [h.nameEnd_step hk hl hm hblank hr, if_neg hc, if_neg hc₂, if_pos ha]
    rw [hj, Option.map_some] at hj'
    simp only [hj]
    exact ih (by omega) (hr.trans (.typeArguments hb hp hj'))
  case case4 k hk hc hc₂ ha hj ih =>
    have hlt := Buffer.le_seek (!sub.isChar · '<') (k + 1) l
    have hseek : Buffer.seek (!buf.isChar · '<') (o + (k + 1)) (o + l) =
        o + Buffer.seek (!sub.isChar · '<') (k + 1) l :=
      seek_eq fun m _ hm => by rw [h.isChar_eq (show m < sub.size by omega)]
    rw [h.nameEnd_step hk hl hm hblank hr, if_neg hc, if_neg hc₂, if_pos ha]
    rw [h.isChar_eq (by omega)] at ha
    simp only [hj]
    refine ih (by omega) ((hr.next ?opener).trans (hseek ▸ .seek fun m _ _ hn => ?between))
    case opener => exact Skip.quoted?_eq_none_of_isChar hb hp ha (by decide)
    case between => exact Skip.quoted?_eq_none_of_isChar hb hp (by simpa using hn) (by decide)
  case case5 k hk hc hc₂ ha j hj hjl ih =>
    have hj' := h.block?_eq (by omega) hr false
    have hlt := Skip.lt_block? profile sub hj
    rw [h.nameEnd_step hk hl hm hblank hr, if_neg hc, if_neg hc₂, if_neg ha]
    rw [hj, Option.map_some] at hj'
    simp only [hj, if_pos hjl]
    exact ih (by omega) (hr.trans (.block hb hp hj'))
  case case6 k hk hc hc₂ ha j hj hjl =>
    rw [h.nameEnd_step hk hl hm hblank hr, if_neg hc, if_neg hc₂, if_neg ha]
    simp only [hj, if_neg hjl]
  case case7 k hk hc hc₂ ha hj hbl =>
    rw [h.nameEnd_step hk hl hm hblank hr, if_neg hc, if_neg hc₂, if_neg ha]
    simp only [hj, if_pos hbl]
  case case8 k hk hc hc₂ ha hj hbl =>
    rw [h.nameEnd_step hk hl hm hblank hr, if_neg hc, if_neg hc₂, if_neg ha]
    simp only [hj, if_neg hbl]
  case case9 k hk => rw [Skip.nameEnd, if_neg (by omega)]

theorem at?_eq (h : Sealed profile buf sub o a e) (hk : k < l) (hl : l ≤ e)
    (hr : Skip.Reach profile buf a (o + k)) :
    Word.at? profile buf (o + l) (o + k) = (Word.at? profile sub l k).map (Word.shift o) := by
  have hle := h.le_size
  have hn : Skip.name? profile buf (o + l) (o + k) =
      (Skip.name? profile sub l k).map (o + ·) := by
    unfold Skip.name?
    rw [← h.isText_eq (by omega), ← h.isNameSymbol_eq (by omega)]
    split
    case isFalse hc => rw [if_neg fun hc' => hc ⟨by omega, hc'.2⟩, Option.map_none]
    case isTrue hc =>
      -- No comment starts at a name, so the position behind its first token is reached.
      have hq : Skip.quoted? profile buf (o + k) = none := by
        refine Skip.quoted?_eq_none_of_name h.wellFormed h.separate ?_
        rw [← h.isText_eq (by omega), ← h.isNameSymbol_eq (by omega), hc.2]
        rfl
      rw [if_pos ⟨by omega, hc.2⟩, Nat.add_assoc,
        h.nameEnd_eq hl (Nat.lt_succ_self k) (Skip.not_isBlank_of_name hc.2) (hr.next hq),
        Nat.add_min_add_left, Option.map_some]
  unfold Word.at?
  rw [hn]
  cases Skip.name? profile sub l k
  case some => rfl
  case none =>
    simp [h.enclosed?_eq (by omega) hr, Function.comp_def, Word.shift, Nat.add_min_add_left]

-- Between words the part is read like the whole text.
theorem read_eq (h : Sealed profile buf sub o a e) (hl : l ≤ e) {p q : Nat → Bool}
    (hpq : ∀ m, k ≤ m → m < l → p m = q (o + m))
    (hr : k < l → Skip.Reach profile buf a (o + k)) :
    Word.read profile buf q (o + l) (o + k) =
      ((Word.read profile sub p l k).1.map (Word.shift o),
        o + (Word.read profile sub p l k).2) := by
  fun_induction Word.read profile sub p l k
  case case1 k hk hp => exact Word.read_halt (by omega) (hpq k (Nat.le_refl _) hk ▸ hp)
  case case2 k hk hp w hw rest ih =>
    have hw' := h.at?_eq hk hl (hr hk)
    have hq : q (o + k) = false := by
      rwa [← hpq k (Nat.le_refl _) hk, ← Bool.not_eq_true]
    have hlt := Word.lt_stop_of_at? profile sub hk hw
    rw [hw, Option.map_some] at hw'
    rw [Word.read_word (by omega) hq hw']
    have ih := ih (fun m hm => hpq m (by omega)) fun hs =>
      (hr hk).trans (Word.reach_of_at? h.wellFormed h.separate hw' (Nat.add_lt_add_left hs o))
    rw [Word.shift, ih, List.map_cons, Word.shift]
  case case3 k hk hp hw ih =>
    have hw' := h.at?_eq hk hl (hr hk)
    have hq : q (o + k) = false := by
      rwa [← hpq k (Nat.le_refl _) hk, ← Bool.not_eq_true]
    rw [hw, Option.map_none] at hw'
    rw [Word.read_other (by omega) hq hw']
    exact ih (fun m hm => hpq m (by omega)) fun _ =>
      (hr hk).next (Word.quoted?_eq_none_of_at? hw')
  case case4 k hk => exact Word.read_end (by omega)

end Sealed
end SourceDocs

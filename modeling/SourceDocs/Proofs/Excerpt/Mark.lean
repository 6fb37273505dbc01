import SourceDocs.Proofs.Excerpt.Word

namespace SourceDocs

namespace Roles

-- The roles from `o` on are those of the part, which has `n` tokens.
structure Agree (o n : Nat) (r r' : Roles) : Prop where
  size_le : o + n ≤ r.slots.size
  size_eq : r'.slots.size = n
  get_eq : ∀ k < n, r.get (o + k) = r'.get k

namespace Agree

variable {o n : Nat} {r r' : Roles}

theorem set (h : Agree o n r r') (k : Nat) (role : Option Role) :
    Agree o n (r.set (o + k) role) (r'.set k role) := by
  have hs := h.size_le
  have hs' := h.size_eq
  refine ⟨by simpa using hs, by simpa using hs', fun m hm => ?_⟩
  rw [get_set, get_set, h.get_eq m hm]
  by_cases hk : m = k
  case pos => rw [if_pos (by omega), if_pos (by omega)]
  case neg => rw [if_neg (by omega), if_neg (by omega)]

theorem setRange (h : Agree o n r r') (i j : Nat) (role : Option Role) :
    Agree o n (r.setRange (o + i) (o + j) role) (r'.setRange i j role) := by
  have hs := h.size_le
  have hs' := h.size_eq
  refine ⟨by simpa using hs, by simpa using hs', fun m hm => ?_⟩
  rw [get_setRange, get_setRange, h.get_eq m hm]
  by_cases hk : i ≤ m ∧ m < j
  case pos => rw [if_pos (by omega), if_pos (by omega)]
  case neg => rw [if_neg (by omega), if_neg (by omega)]

theorem foldl {α : Type} {f f' : Roles → α → Roles} {g : α → α} {xs : List α}
    (hf : ∀ r r', Agree o n r r' → ∀ x ∈ xs, Agree o n (f r (g x)) (f' r' x))
    (h : Agree o n r r') : Agree o n ((xs.map g).foldl f r) (xs.foldl f' r') := by
  induction xs generalizing r r'
  case nil => exact h
  case cons x xs hi =>
    exact hi (fun r r' h y hy => hf r r' h y (.tail _ hy)) (hf r r' h x (.head _))

end Agree
end Roles

-- Brackets from `i` to `j` in the part that are marked behind a name or a type open no block that
-- runs over the end of the part in the whole text.
def SuffixesFit (profile : Profile) (buf : Buffer) (o n : Nat) (r' : Roles) (i j : Nat) : Prop :=
  ∀ k, i ≤ k → k < j → (r'.get k).any Role.isSuffixBracket = true →
    ∀ m, Skip.block? profile buf true (o + k) = some m → m ≤ o + n

namespace SuffixesFit

variable {profile : Profile} {buf : Buffer} {o n i j : Nat} {r r' : Roles}

theorem mono {i' j' : Nat} (h : SuffixesFit profile buf o n r i j) (hi : i ≤ i') (hj : j' ≤ j) :
    SuffixesFit profile buf o n r i' j' :=
  fun k hk hk' => h k (by omega) (by omega)

-- What is marked later, behind these positions, does not matter.
theorem before {sub : Buffer} {a b : Nat} (h : SuffixesFit profile buf o n r' i j)
    (hs : Roles.SameOutside profile sub a b r r') (ha : j ≤ a) : SuffixesFit profile buf o n r i j :=
  fun k hk hk' hr => h k hk hk' (by rwa [hs.get_eq k (by omega)])

end SuffixesFit

theorem Excerpt.retreat_eq {p q : Nat → Bool} {o i j : Nat} (hpq : ∀ m, m < j → p m = q (o + m)) :
    Buffer.retreat q (o + i) (o + j) = o + Buffer.retreat p i j := by
  induction j
  case zero =>
    cases o
    case zero => rfl
    case succ o => simp [Buffer.retreat, show ¬o + 1 + i < o + 1 by omega]
  case succ j hi =>
    rw [← Nat.add_assoc, Buffer.retreat, Buffer.retreat, hpq j (Nat.lt_succ_self j)]
    by_cases hj : i < j + 1 ∧ q (o + j)
    case pos =>
      rw [if_pos hj, if_pos ⟨by omega, hj.2⟩]
      exact hi fun m hm => hpq m (by omega)
    case neg => rw [if_neg hj, if_neg fun hj' => hj ⟨by omega, hj'.2⟩, Nat.add_assoc]

namespace Prototype

open Roles

variable {profile : Profile} {buf sub : Buffer} {o k l : Nat} {r r' : Roles}

section Positions

variable (h : Excerpt buf sub o)

include h

theorem isIdentifier_eq (hk : k < sub.size) : isIdentifier sub k = isIdentifier buf (o + k) := by
  rw [isIdentifier, isIdentifier, h.isText_eq hk, h.isChar_eq hk]

theorem isDefault_eq (hk : k < sub.size) : isDefault sub k = isDefault buf (o + k) := by
  rw [isDefault, isDefault, h.isChar_eq hk, h.assign_eq hk]

theorem isListSeparator_eq (hk : k < sub.size) :
    isListSeparator sub k = isListSeparator buf (o + k) := by
  rw [isListSeparator, isListSeparator, h.isChar_eq hk, h.isChar_eq hk]

theorem beforeBlanks_eq (i : Nat) (hl : l ≤ sub.size) :
    buf.beforeBlanks (o + i) (o + l) = o + sub.beforeBlanks i l :=
  Excerpt.retreat_eq fun m hm => h.isBlank_eq (by omega)

theorem seek_isIdentifier_eq (hl : l ≤ sub.size) :
    Buffer.seek (isIdentifier buf) (o + k) (o + l) = o + Buffer.seek (isIdentifier sub) k l :=
  Excerpt.seek_eq fun m _ hm => isIdentifier_eq h (by omega)

theorem qualifiedEnd_eq (hl : l ≤ sub.size) :
    qualifiedEnd buf (o + l) (o + k) = o + qualifiedEnd sub l k := by
  fun_induction qualifiedEnd sub l k
  case case1 k hk hc ih =>
    rw [isIdentifier_eq h (by omega), h.isChar_eq (by omega)] at hc
    rw [qualifiedEnd, if_pos (by omega), if_pos hc]
    exact ih
  case case2 k hk hc hc₂ ih =>
    rw [isIdentifier_eq h (by omega), h.isChar_eq (by omega)] at hc
    rw [h.doubleColon_eq (by omega)] at hc₂
    rw [qualifiedEnd, if_pos (by omega), if_neg hc, if_pos hc₂]
    exact ih
  case case3 k hk hc hc₂ =>
    rw [isIdentifier_eq h (by omega), h.isChar_eq (by omega)] at hc
    rw [h.doubleColon_eq (by omega)] at hc₂
    rw [qualifiedEnd, if_pos (by omega), if_neg hc, if_neg hc₂]
  case case4 k hk => rw [qualifiedEnd, if_neg (by omega)]

theorem typeEnds_eq (hl : l ≤ sub.size) (q : Nat) :
    typeEnds buf (o + l) (o + q) (o + k) =
      (o + (typeEnds sub l q k).1, o + (typeEnds sub l q k).2) := by
  fun_induction typeEnds sub l q k
  case case1 q k hk hc ih =>
    rw [h.isChar_eq (by omega)] at hc
    rw [typeEnds, if_pos (by omega), if_pos hc]
    exact ih
  case case2 q k hk hc hc₂ ih =>
    rw [h.isChar_eq (by omega)] at hc
    rw [h.doubleColon_eq (by omega)] at hc₂
    rw [typeEnds, if_pos (by omega), if_neg hc, if_pos hc₂]
    exact ih
  case case3 q k hk hc hc₂ hc₃ ih =>
    rw [h.isChar_eq (by omega)] at hc
    rw [h.doubleColon_eq (by omega)] at hc₂
    rw [isIdentifier_eq h (by omega)] at hc₃
    rw [typeEnds, if_pos (by omega), if_neg hc, if_neg hc₂, if_pos hc₃]
    exact ih
  case case4 q k hk hc hc₂ hc₃ =>
    rw [h.isChar_eq (by omega)] at hc
    rw [h.doubleColon_eq (by omega)] at hc₂
    rw [isIdentifier_eq h (by omega)] at hc₃
    rw [typeEnds, if_pos (by omega), if_neg hc, if_neg hc₂, if_neg hc₃]
  case case5 q k hk => rw [typeEnds, if_neg (by omega)]

theorem pointerStart_eq (i : Nat) (hl : l ≤ sub.size) :
    pointerStart buf (o + i) (o + l) = o + pointerStart sub i l := by
  have hretreat {l : Nat} (hl : l ≤ sub.size) :
      Buffer.retreat buf.isBlank (o + i + 1) (o + l) =
        o + Buffer.retreat sub.isBlank (i + 1) l :=
    Excerpt.retreat_eq (i := i + 1) fun m hm => h.isBlank_eq (by omega)
  fun_induction pointerStart sub i l
  case case1 l j hj ih =>
    have hle : j ≤ l := Buffer.retreat_le sub.isBlank (i + 1) l
    rw [h.isPointer_eq (by omega)] at hj
    have hsub : o + j - 1 = o + (j - 1) := by omega
    rw [pointerStart, hretreat hl, if_pos ⟨by omega, hsub ▸ hj.2⟩, hsub]
    exact ih (by omega)
  case case2 l j hj =>
    have hle : j ≤ l := Buffer.retreat_le sub.isBlank (i + 1) l
    rw [pointerStart, hretreat hl, if_neg]
    rintro ⟨hlt, hs⟩
    have hsub : o + j - 1 = o + (j - 1) := by omega
    rw [h.isPointer_eq (by omega)] at hj
    exact hj ⟨by omega, hsub ▸ hs⟩

end Positions

-- A block that is found in the part only is cut off there.
theorem filter_block?_eq (h : Excerpt buf sub o) (hp : profile.Separate) (hk : k < sub.size)
    (hl : l ≤ sub.size)
    (hf : ∀ j, (Skip.block? profile sub true k).filter (· ≤ l) = some j →
      ∀ m, Skip.block? profile buf true (o + k) = some m → m ≤ o + sub.size) :
    (Skip.block? profile buf true (o + k)).filter (· ≤ o + l) =
      ((Skip.block? profile sub true k).filter (· ≤ l)).map (o + ·) := by
  by_cases hfit : ∀ m, Skip.block? profile buf true (o + k) = some m → m ≤ o + sub.size
  case pos =>
    rw [h.block?_eq hp hk hfit, Option.filter_map]
    simp [Function.comp_def]
  case neg =>
    -- The block runs over the end of the part, so no suffix may be marked there.
    simp only [not_forall, Nat.not_le] at hfit
    obtain ⟨m, hm, hlt⟩ := hfit
    have hsub : (Skip.block? profile sub true k).filter (· ≤ l) = none := by
      rw [Option.eq_none_iff_forall_not_mem]
      intro j hj
      have := hf j hj m hm
      omega
    rw [hsub, hm, Option.filter_some_neg (by simp; omega), Option.map_none]

theorem agree_markModifier (hr : Agree o sub.size r r') (w : Word) :
    Agree o sub.size (markModifier r (w.shift o)) (markModifier r' w) := by
  unfold markModifier Word.shift
  dsimp only
  by_cases hw : w.isBlock ∧ w.start + 2 ≤ w.stop
  case pos =>
    rw [if_pos ⟨hw.1, by omega⟩, if_pos hw, show o + w.stop - 1 = o + (w.stop - 1) by omega]
    exact (hr.set ..).set ..
  case neg =>
    rw [if_neg fun hw' => hw ⟨hw'.1, by omega⟩, if_neg hw]
    exact hr.setRange ..

theorem agree_markDefault (h : Excerpt buf sub o) (hr : Agree o sub.size r r') (hk : k < l)
    (hl : l ≤ sub.size) :
    Agree o sub.size (markDefault buf r (o + k) (o + l)) (markDefault sub r' k l) := by
  unfold markDefault
  dsimp only
  have hsign : (if buf.isChar (o + k) '=' then o + k + 1 else o + k + 2) =
      o + if sub.isChar k '=' then k + 1 else k + 2 := by
    rw [h.isChar_eq (by omega)]
    split <;> rfl
  rw [hsign, h.afterBlanks_eq hl, beforeBlanks_eq h _ hl]
  by_cases hlt : sub.afterBlanks (if sub.isChar k '=' then k + 1 else k + 2) l <
      sub.beforeBlanks (sub.afterBlanks (if sub.isChar k '=' then k + 1 else k + 2) l) l
  case pos =>
    rw [if_pos (by omega), if_pos hlt]
    exact (hr.setRange ..).setRange ..
  case neg =>
    rw [if_neg (by omega), if_neg hlt]
    exact hr.setRange ..

theorem agree_markNameSuffix (h : Excerpt buf sub o) (hp : profile.Separate)
    (hr : Agree o sub.size r r') (hl : l ≤ sub.size)
    (hf : SuffixesFit profile buf o sub.size (markNameSuffix profile sub r' l k) k l) :
    Agree o sub.size (markNameSuffix profile buf r (o + l) (o + k))
      (markNameSuffix profile sub r' l k) := by
  fun_induction markNameSuffix profile sub r' l k generalizing r
  case case1 r' k hk j hj _ ih =>
    have hlt := Skip.lt_block? profile sub (Option.filter_eq_some_iff.mp hj).1
    have hs := hr.size_eq
    -- The bracket keeps the role of a suffix, and so its block must fit.
    have hj' := filter_block?_eq h hp (show k < sub.size by omega) hl fun _ _ => by
      refine hf k (Nat.le_refl _) hk ?_
      rw [(sameOutside_markNameSuffix profile).get_eq k (.inl hlt), get_set, get_set]
      split
      case isTrue => rfl
      case isFalse => rw [if_pos ⟨rfl, by omega⟩]; rfl
    rw [hj, Option.map_some] at hj'
    rw [markNameSuffix_block profile (by omega) hj', show o + j - 1 = o + (j - 1) by omega]
    exact ih ((hr.set ..).set ..) (hf.mono (by omega) (Nat.le_refl _))
  case case2 r' k hk hj roles ih =>
    have hj' := filter_block?_eq h hp (show k < sub.size by omega) hl fun _ hm => by
      cases hj.symm.trans hm
    rw [hj, Option.map_none] at hj'
    rw [markNameSuffix_other profile (by omega) hj', ← h.isBlank_eq (by omega)]
    refine ih ?_ (hf.mono (by omega) (Nat.le_refl _))
    simp only [roles]
    split
    case isTrue => exact hr
    case isFalse => exact hr.set ..
  case case3 r' k hk =>
    rw [markNameSuffix, if_neg (by omega)]
    exact hr

theorem agree_markName (h : Excerpt buf sub o) (hp : profile.Separate)
    (hr : Agree o sub.size r r') {w : Word} (hw : w.stop ≤ sub.size)
    (hf : SuffixesFit profile buf o sub.size (markName profile sub r' w) w.start w.stop) :
    Agree o sub.size (markName profile buf r (w.shift o)) (markName profile sub r' w) := by
  have h₁ := Buffer.le_seek (isIdentifier sub) w.start w.stop
  have h₂ := le_qualifiedEnd sub w.stop (Buffer.seek (isIdentifier sub) w.start w.stop)
  unfold markName at hf ⊢
  simp only [Word.shift, seek_isIdentifier_eq h hw, qualifiedEnd_eq h hw]
  refine agree_markNameSuffix h hp ((hr.setRange ..).setRange ..) hw ?_
  exact hf.mono (by omega) (Nat.le_refl _)

theorem modifiersAndLast_eq {a e start stop : Nat} (h : Sealed profile buf sub o a e)
    (hr : Agree o sub.size r r') (hl : stop ≤ e)
    (hs : start < stop → Skip.Reach profile buf a (o + start)) :
    modifiersAndLast profile buf r (o + start) (o + stop) =
      ((modifiersAndLast profile sub r' start stop).1.map (Word.shift o),
        (modifiersAndLast profile sub r' start stop).2.map (Word.shift o)) := by
  have hle := h.le_size
  have hall := h.read_eq hl (p := fun _ => false) (q := fun _ => false) (fun _ _ _ => rfl) hs
  have hwords := h.read_eq hl (p := isSeparator r') (q := isSeparator r)
    (fun m _ hm => by rw [isSeparator, isSeparator, hr.get_eq m (by omega)]) hs
  unfold modifiersAndLast
  simp only [hall, hwords, List.length_map]
  split
  case isTrue => rw [← List.map_dropLast, List.getLast?_map]
  case isFalse => rfl

theorem agree_modifiers (hr : Agree o sub.size r r') (words : List Word) :
    Agree o sub.size
      ((words.map (Word.shift o)).foldl
        (fun r w => r.setRange w.start w.stop (some .modifier)) r)
      (words.foldl (fun r w => r.setRange w.start w.stop (some .modifier)) r') :=
  .foldl (fun _ _ hr _ _ => hr.setRange ..) hr

section MarkType

-- What it means that the functions that mark types agree, one for each of them. A list of types is
-- read from a bracket on, so that it is in a sealed range of the part.
def TypeAgrees (profile : Profile) (buf sub : Buffer) (o : Nat) (r' : Roles) (start stop : Nat) :
    Prop :=
  ∀ r, Agree o sub.size r r' → stop ≤ sub.size →
    SuffixesFit profile buf o sub.size (markType profile sub r' start stop) start stop →
    Agree o sub.size (markType profile buf r (o + start) (o + stop))
      (markType profile sub r' start stop)

def TypeSuffixAgrees (profile : Profile) (buf sub : Buffer) (o : Nat) (r' : Roles)
    (stop i : Nat) : Prop :=
  ∀ r, Agree o sub.size r r' → stop ≤ sub.size →
    SuffixesFit profile buf o sub.size (markTypeSuffix profile sub r' stop i) i stop →
    Agree o sub.size (markTypeSuffix profile buf r (o + stop) (o + i))
      (markTypeSuffix profile sub r' stop i)

def TypeListAgrees (profile : Profile) (buf sub : Buffer) (o : Nat) (r' : Roles)
    (stop i : Nat) : Prop :=
  ∀ r a e, Sealed profile buf sub o a e → Agree o sub.size r r' → stop ≤ e →
    (i < stop → Skip.Reach profile buf a (o + i)) →
    SuffixesFit profile buf o sub.size (markTypeList profile sub r' stop i) i stop →
    Agree o sub.size (markTypeList profile buf r (o + stop) (o + i))
      (markTypeList profile sub r' stop i)

def ModifiersAndTypeAgrees (profile : Profile) (buf sub : Buffer) (o : Nat) (r' : Roles)
    (start stop : Nat) : Prop :=
  ∀ r a e, Sealed profile buf sub o a e → Agree o sub.size r r' → stop ≤ e →
    (start < stop → Skip.Reach profile buf a (o + start)) →
    SuffixesFit profile buf o sub.size (markModifiersAndType profile sub r' start stop) start
      stop →
    Agree o sub.size (markModifiersAndType profile buf r (o + start) (o + stop))
      (markModifiersAndType profile sub r' start stop)

variable {i j stop : Nat} (h : Excerpt buf sub o) (hp : profile.Separate)

include h hp

-- The words of a list stop at a separator, which starts neither a comment nor a string.
theorem reach_behind_piece {a : Nat} (stop : Nat) (hreach : Skip.Reach profile buf a i)
    (hlt : (Word.read profile buf (isListSeparator buf) stop i).2 < stop) :
    Skip.Reach profile buf a ((Word.read profile buf (isListSeparator buf) stop i).2 + 1) := by
  refine (hreach.trans (Word.reach_read h.wellFormed hp hlt)).next ?_
  rcases Bool.or_eq_true .. ▸ Word.halt_of_read_lt hlt with hc | hc
  case inl => exact Skip.quoted?_eq_none_of_isChar h.wellFormed hp hc (by decide)
  case inr => exact Skip.quoted?_eq_none_of_isChar h.wellFormed hp hc (by decide)

-- A block that is marked in the part is one of the whole text, and the list in it is sealed there.
theorem typeSuffixAgrees_block {inner : Roles} (hi : i < stop)
    (hj : (Skip.block? profile sub true i).filter (· ≤ stop) = some j)
    (hinner : inner = if i + 1 < j then
        markTypeList profile sub ((r'.set i (some .openingTypeSuffix)).set (j - 1)
          (some .closingTypeSuffix)) (j - 1) (i + 1)
      else r'.set i (some .openingTypeSuffix))
    (list : i + 1 < j → TypeListAgrees profile buf sub o
      ((r'.set i (some .openingTypeSuffix)).set (j - 1) (some .closingTypeSuffix)) (j - 1) (i + 1))
    (rest : TypeSuffixAgrees profile buf sub o inner stop j) :
    TypeSuffixAgrees profile buf sub o r' stop i := by
  intro r hr hl hf
  have hsub := h.wellFormed_sub
  obtain ⟨hblock, hjs⟩ := Option.filter_eq_some_iff.mp hj
  have hlt := Skip.lt_block? profile sub hblock
  simp only [decide_eq_true_eq] at hjs
  have hsize := hr.size_eq
  rw [markTypeSuffix_block profile hi hj, ← hinner] at hf ⊢
  -- Nothing that is marked behind the block changes its brackets.
  have hrest : SameOutside profile sub j (stop + 1) inner
      (markTypeSuffix profile sub inner stop j) :=
    (typeRun_markTypeSuffix profile hsub ..).sameOutside profile (.inl (Nat.lt_succ_self stop))
  have hopen : inner.get i = some .openingTypeSuffix := by
    subst hinner
    split
    case isTrue hij =>
      have hlist := (typeRun_markTypeList profile hsub ((r'.set i (some .openingTypeSuffix)).set
        (j - 1) (some .closingTypeSuffix)) (j - 1) (i + 1)).sameOutside profile
          (.inl (Nat.lt_succ_self _))
      rw [hlist.get_eq i (.inl (by omega)), get_set, if_neg (by omega), get_set,
        if_pos ⟨rfl, by omega⟩]
    case isFalse => rw [get_set, if_pos ⟨rfl, by omega⟩]
  have hj' := filter_block?_eq h hp (show i < sub.size by omega) hl fun _ _ =>
    hf i (Nat.le_refl _) hi (by rw [hrest.get_eq i (.inl hlt), hopen]; rfl)
  rw [hj, Option.map_some] at hj'
  rw [markTypeSuffix_block profile (by omega) hj', show o + j - 1 = o + (j - 1) by omega]
  refine rest _ ?_ hl (hf.mono (by omega) (Nat.le_refl _))
  by_cases hij : i + 1 < j
  case neg =>
    rw [if_neg (by omega), hinner, if_neg hij]
    exact hr.set ..
  case pos =>
    have hblock' := (Option.filter_eq_some_iff.mp hj').1
    obtain ⟨c, hc, -⟩ := Option.map_eq_some_iff.mp hblock'
    have hreach : Skip.Reach profile buf (o + i) (o + (i + 1)) :=
      .step (Skip.quoted?_eq_none_of_opens? h.wellFormed hp hc) (.refl _)
    have hf : SuffixesFit profile buf o sub.size inner (i + 1) (j - 1) :=
      (hf.mono (by omega) (by omega)).before hrest (by omega)
    rw [hinner, if_pos hij] at hf
    rw [if_pos (by omega), hinner, if_pos hij, Nat.add_assoc]
    exact list hij _ _ _ (.of_block h hp (by omega) hblock') ((hr.set ..).set ..) (by omega)
      (fun _ => hreach) hf

-- The type between two separators is the same in both texts, and so are the blanks around it.
theorem typeListAgrees_piece {first last : Nat} {inner : Roles} (hi : i < stop)
    (hj : (Word.read profile sub (isListSeparator sub) stop i).2 = j)
    (hlast : sub.beforeBlanks i j = last) (hfirst : sub.afterBlanks i last = first)
    (hinner : inner = if first < last then markModifiersAndType profile sub r' first last else r')
    (piece : first < last → ModifiersAndTypeAgrees profile buf sub o r' first last)
    (rest : TypeListAgrees profile buf sub o inner stop (j + 1)) :
    TypeListAgrees profile buf sub o r' stop i := by
  intro r a e hs hr hl hreach hf
  have hsub := h.wellFormed_sub
  have hle := hs.le_size
  have hread := hs.read_eq hl (q := isListSeparator buf)
    (fun m _ hm => isListSeparator_eq h (by omega)) hreach
  have hstop := hj ▸ Word.read_le profile sub (isListSeparator sub) (Nat.le_of_lt hi)
  have hge := hj ▸ Word.le_read profile sub (isListSeparator sub) stop i
  have hnext := reach_behind_piece h hp (o + stop) (hreach hi)
  simp only [hread, hj] at hnext
  have hlj : last ≤ j := hlast ▸ sub.beforeBlanks_le i j
  have hif : i ≤ first := hfirst ▸ sub.le_afterBlanks i last
  have hlast' : buf.beforeBlanks (o + i) (o + j) = o + last := by
    rw [beforeBlanks_eq h i (by omega), hlast]
  have hfirst' : buf.afterBlanks (o + i) (o + last) = o + first := by
    rw [h.afterBlanks_eq (by omega), hfirst]
  rw [markTypeList_piece profile hi hj hlast hfirst, ← hinner] at hf ⊢
  rw [markTypeList_piece profile (by omega) (by rw [hread, hj]) hlast' hfirst', Nat.add_assoc]
  refine rest _ _ _ hs ?_ hl (fun hlt => hnext (by omega)) (hf.mono (by omega) (Nat.le_refl _))
  by_cases hfl : first < last
  case neg =>
    rw [if_neg (by omega), hinner, if_neg hfl]
    exact hr
  case pos =>
    rw [if_pos (by omega), hinner, if_pos hfl]
    refine piece hfl _ _ _ hs hr (by omega) (fun _ => (hreach hi).trans ?reach) ?fits
    case reach => exact hfirst' ▸ .afterBlanks h.wellFormed hp _
    case fits =>
      rw [hinner, if_pos hfl] at hf
      have hrest := (typeRun_markTypeList profile hsub (markModifiersAndType profile sub r' first
        last) stop (j + 1)).sameOutside profile (.inl (Nat.lt_succ_self stop))
      exact (hf.mono hif (by omega)).before hrest (by omega)

theorem agree_markType_mutual :
    (∀ r' start stop, TypeAgrees profile buf sub o r' start stop) ∧
    (∀ r' stop i, TypeSuffixAgrees profile buf sub o r' stop i) ∧
    (∀ r' stop i, TypeListAgrees profile buf sub o r' stop i) ∧
    (∀ r' start stop, ModifiersAndTypeAgrees profile buf sub o r' start stop) := by
  apply markType.mutual_induct profile sub
  case case1 =>
    dsimp only
    intro r' start stop rest r hr hl hf
    have h₁ := Buffer.le_seek (isIdentifier sub) start stop
    have h₂ := le_typeEnds sub stop (Buffer.seek (isIdentifier sub) start stop)
      (Buffer.seek (isIdentifier sub) start stop)
    unfold markType at hf ⊢
    dsimp only at hf ⊢
    rw [seek_isIdentifier_eq h hl, typeEnds_eq h hl]
    refine rest _ (((hr.setRange ..).setRange ..).setRange ..) hl ?_
    exact hf.mono (by omega) (Nat.le_refl _)
  case case2 =>
    dsimp only
    intro r' stop i hi j hj list _ rest
    exact typeSuffixAgrees_block h hp hi hj dite_eq_ite list rest
  case case3 =>
    intro r' stop i hi hj rest r hr hl hf
    rw [markTypeSuffix_other profile hi hj] at hf ⊢
    have hj' := filter_block?_eq h hp (show i < sub.size by omega) hl fun _ hm => by
      cases hj.symm.trans hm
    rw [hj, Option.map_none] at hj'
    rw [markTypeSuffix_other profile (by omega) hj']
    exact rest _ (hr.set ..) hl (hf.mono (by omega) (Nat.le_refl _))
  case case4 =>
    intro r' stop i hi r hr hl _
    rw [markTypeSuffix_end profile hi, markTypeSuffix_end profile (by omega)]
    exact hr
  case case5 =>
    dsimp only
    intro r' stop i hi piece _ rest
    exact typeListAgrees_piece h hp hi rfl rfl rfl dite_eq_ite piece rest
  case case6 =>
    intro r' stop i hi r a e _ hr _ _ _
    rw [markTypeList_end profile hi, markTypeList_end profile (by omega)]
    exact hr
  case case7 =>
    dsimp only
    intro r' start stop w hw type r a e hs hr hl hreach hf
    obtain ⟨hstart, -, hstop⟩ := within_of_modifiersAndLast profile (.inr hw)
    have hle := hs.le_size
    rw [markModifiersAndType_eq] at hf
    rw [markModifiersAndType_eq, markModifiersAndType_eq, modifiersAndLast_eq hs hr hl hreach]
    simp only [hw, Option.map_some] at hf ⊢
    exact type _ (agree_modifiers hr _) (by omega) (hf.mono hstart hstop)
  case case8 =>
    dsimp only
    intro r' start stop hw r a e hs hr hl hreach _
    rw [markModifiersAndType_eq, markModifiersAndType_eq, modifiersAndLast_eq hs hr hl hreach]
    simp only [hw, Option.map_none]
    exact agree_modifiers hr _

end MarkType

theorem agree_markType (h : Excerpt buf sub o) (hp : profile.Separate)
    (hr : Agree o sub.size r r') {start stop : Nat} (hl : stop ≤ sub.size)
    (hf : SuffixesFit profile buf o sub.size (markType profile sub r' start stop) start stop) :
    Agree o sub.size (markType profile buf r (o + start) (o + stop))
      (markType profile sub r' start stop) :=
  (agree_markType_mutual h hp).1 r' start stop r hr hl hf

end Prototype
end SourceDocs

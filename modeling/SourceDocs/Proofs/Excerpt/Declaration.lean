import SourceDocs.Proofs.Excerpt.Mark

namespace SourceDocs.Prototype

open Roles

variable {profile : Profile} {buf sub : Buffer} {o k l : Nat} {r r' : Roles}

theorem get_foldl {f : Roles → Nat → Roles} (hf : ∀ r i, (f r i).get k = r.get k) (is : List Nat) :
    (is.foldl f r).get k = r.get k := by
  induction is generalizing r
  case nil => rfl
  case cons i is hi => rw [List.foldl_cons, hi, hf]

-- Brackets are no pointer symbols, so they keep their roles when those are marked.
theorem suffixesFit_markType (h : Excerpt buf sub o) {w : Word} (hw : w.stop ≤ sub.size)
    (hf : SuffixesFit profile buf o sub.size (markDeclaredType profile sub r' w) w.start w.stop) :
    SuffixesFit profile buf o sub.size (markType profile sub r' w.start w.stop) w.start w.stop := by
  intro k hk hk' hr m hm
  obtain ⟨c, hc, -⟩ := Option.map_eq_some_iff.mp hm
  rw [← h.opens?_eq (by omega)] at hc
  obtain ⟨hpointer, hblank⟩ := Skip.not_isPointer_of_opens? hc
  refine hf k hk hk' ?_ m hm
  unfold markDeclaredType
  dsimp only
  split
  case isFalse => exact hr
  case isTrue =>
    rw [get_foldl (fun r i => ?_), hr]
    split
    case isTrue hi =>
      rw [get_set, if_neg]
      rintro ⟨rfl, -⟩
      simp [hpointer] at hi
    case isFalse =>
      split
      case isTrue hi =>
        rw [get_set, if_neg]
        rintro ⟨rfl, -⟩
        simp [hblank] at hi
      case isFalse => rfl

theorem agree_markDeclaredType (h : Excerpt buf sub o) (hp : profile.Separate)
    (hr : Agree o sub.size r r') {w : Word} (hw : w.stop ≤ sub.size)
    (hf : SuffixesFit profile buf o sub.size (markDeclaredType profile sub r' w) w.start w.stop) :
    Agree o sub.size (markDeclaredType profile buf r (w.shift o))
      (markDeclaredType profile sub r' w) := by
  have htype := agree_markType h hp hr hw (suffixesFit_markType h hw hf)
  have hmem {i : Nat} (hi : i ∈ List.range' (pointerStart sub w.start w.stop)
      (w.stop - pointerStart sub w.start w.stop)) : i < sub.size := by
    simp only [List.mem_range'_1] at hi
    omega
  unfold markDeclaredType
  simp only [Word.shift, pointerStart_eq h _ hw, Nat.add_sub_add_left, ← List.map_add_range',
    List.any_map]
  have hany : (List.range' (pointerStart sub w.start w.stop)
      (w.stop - pointerStart sub w.start w.stop)).any (Skip.isPointer buf ∘ (o + ·)) =
      (List.range' (pointerStart sub w.start w.stop)
        (w.stop - pointerStart sub w.start w.stop)).any (Skip.isPointer sub) := by
    rw [Bool.eq_iff_iff, List.any_eq_true, List.any_eq_true]
    exact exists_congr fun i => and_congr_right fun hi => by
      rw [Function.comp_apply, h.isPointer_eq (hmem hi)]
  rw [hany]
  split
  case isFalse => exact htype
  case isTrue =>
    refine .foldl (fun r r' hr i hi => ?_) htype
    rw [← h.isPointer_eq (hmem hi), ← h.isBlank_eq (hmem hi)]
    split
    case isTrue => exact hr.set ..
    case isFalse =>
      split
      case isTrue => exact hr.set ..
      case isFalse => exact hr

theorem agree_markWords (h : Excerpt buf sub o) (hp : profile.Separate)
    (hr : Agree o sub.size r r') {words : List Word}
    (hw : ∀ w ∈ words, w.start < w.stop ∧ w.stop ≤ sub.size)
    (hord : words.Pairwise (·.stop ≤ ·.start))
    (hf : SuffixesFit profile buf o sub.size (markWords profile sub r' words) 0 sub.size) :
    Agree o sub.size (markWords profile buf r (words.map (Word.shift o)))
      (markWords profile sub r' words) := by
  fun_induction markWords profile sub r' words generalizing r
  case case1 => exact hr
  case case2 r' name =>
    have hname := hw name (by simp)
    exact agree_markName h hp hr hname.2 (hf.mono (Nat.zero_le _) hname.2)
  case case3 r' type name =>
    have htype := hw type (by simp)
    have hname := hw name (by simp)
    have hle : type.stop ≤ name.start := by simpa using hord
    refine agree_markName h hp (agree_markDeclaredType h hp hr htype.2 ?_) hname.2
      (hf.mono (Nat.zero_le _) hname.2)
    -- The name is marked last, behind the type.
    have hrest : SameOutside profile sub name.start (name.stop + 1)
        (markDeclaredType profile sub r' type) _ :=
      sameOutside_markName profile h.wellFormed_sub hname.1 (.inl (Nat.lt_succ_self _))
    exact (hf.mono (Nat.zero_le _) htype.2).before hrest hle
  case case4 r' w words hnil hone ih =>
    have ih := ih (agree_markModifier hr w) (fun v hv => hw v (.tail _ hv)) hord.of_cons hf
    rcases words with _ | ⟨u, _ | ⟨v, words⟩⟩
    case nil => exact (hnil rfl).elim
    case cons.nil => exact (hone u rfl).elim
    case cons.cons => exact ih

theorem words_of_read (profile : Profile) (halt : Nat → Bool) (k : Nat) (hl : l ≤ sub.size) :
    (∀ w ∈ (Word.read profile sub halt l k).1, w.start < w.stop ∧ w.stop ≤ sub.size) ∧
      (Word.read profile sub halt l k).1.Pairwise (·.stop ≤ ·.start) := by
  refine ⟨fun w hw => ⟨Word.start_lt_stop_of_mem_read hw, ?_⟩, Word.pairwise_read⟩
  exact (Word.bounds_of_mem_read profile sub hw).2.trans hl

theorem agree_markC (h : Sealed profile buf sub o o sub.size) (hr : Agree o sub.size r r')
    (hf : SuffixesFit profile buf o sub.size (markC profile sub r' 0 sub.size) 0 sub.size) :
    Agree o sub.size (markC profile buf r o (o + sub.size)) (markC profile sub r' 0 sub.size) := by
  have hread := h.read_eq (k := 0) (Nat.le_refl sub.size) (p := isDefault sub) (q := isDefault buf)
    (fun m _ hm => isDefault_eq h.toExcerpt hm) fun _ => .refl o
  have hwords := words_of_read profile (isDefault sub) 0 (Nat.le_refl sub.size)
  unfold markC at hf ⊢
  dsimp only at hf ⊢
  rw [Nat.add_zero] at hread
  rw [hread]
  refine agree_markWords h.toExcerpt h.separate ?_ hwords.1 hwords.2 hf
  by_cases hlt : (Word.read profile sub (isDefault sub) sub.size 0).2 < sub.size
  case pos =>
    rw [if_pos (by omega), if_pos hlt]
    exact agree_markDefault h.toExcerpt hr hlt (Nat.le_refl _)
  case neg =>
    rw [if_neg (by omega), if_neg hlt]
    exact hr

def SeparatorsMarked (buf : Buffer) (roles : Roles) : Prop :=
  ∀ k, isSeparator roles k = true → buf.isChar k ':' = true ∨ buf.isChar k '=' = true

namespace SeparatorsMarked

variable {roles : Roles}

theorem setRange (h : SeparatorsMarked buf roles) {i j : Nat} {role : Option Role}
    (hr : (∀ k, i ≤ k → k < j → buf.isChar k ':' = true ∨ buf.isChar k '=' = true) ∨
      role ≠ some .defaultSeparator ∧ role ≠ some .nameTypeSeparator) :
    SeparatorsMarked buf (roles.setRange i j role) := by
  intro k hk
  simp only [isSeparator, get_setRange] at hk
  split at hk
  case isFalse => exact h k hk
  case isTrue hij =>
    rcases hr with hr | hr
    case inl => exact hr k hij.1 hij.2.1
    case inr => simp [hr] at hk

theorem markDefault (h : SeparatorsMarked buf roles) (hb : buf.WellFormed) {i : Nat}
    (hd : isDefault buf i = true) (stop : Nat) :
    SeparatorsMarked buf (markDefault buf roles i stop) := by
  have hsign : SeparatorsMarked buf
      (roles.setRange i (if buf.isChar i '=' then i + 1 else i + 2) (some .defaultSeparator)) := by
    -- The sign is `=` or `:=`.
    refine h.setRange (.inl fun k hk hk' => ?_)
    split at hk'
    case isTrue hc =>
      obtain rfl : k = i := by omega
      exact .inr hc
    case isFalse hc =>
      rw [isDefault, Bool.or_eq_true, Buffer.matchesAt_assign hb, Bool.and_eq_true] at hd
      have hd := hd.resolve_left hc
      rcases Nat.lt_or_eq_of_le hk with hk | rfl
      case inr => exact .inl hd.1
      case inl =>
        obtain rfl : k = i + 1 := by omega
        exact .inr hd.2
  unfold Prototype.markDefault
  dsimp only
  generalize (if buf.isChar i '=' then i + 1 else i + 2) = sign at hsign ⊢
  split
  case isTrue => exact hsign.setRange (.inr (by simp))
  case isFalse => exact hsign

theorem survey (hb : buf.WellFormed) {s : Survey} (h : SeparatorsMarked buf s.roles)
    (stop i : Nat) :
    SeparatorsMarked buf (survey profile buf stop s i).roles := by
  fun_induction Prototype.survey profile buf stop s i
  case case1 hd => exact h.markDefault hb hd _
  case case2 ih => exact ih h
  case case3 s i _ _ _ hc ih =>
    refine ih fun k hk => ?_
    simp only [isSeparator, get_set] at hk
    split at hk
    case isTrue hi => exact .inl (hi.1 ▸ hc)
    case isFalse => exact h k hk
  case case4 ih => exact ih h
  case case5 ih => exact ih h
  case case6 => exact h

end SeparatorsMarked

structure Survey.Agree (o n : Nat) (s s' : Survey) : Prop where
  roles : Roles.Agree o n s.roles s'.roles
  words : s.words = s'.words
  beforeColon : s.beforeColon = s'.beforeColon

-- The survey goes from word to word, and so it stays outside of comments and strings.
theorem agree_survey (h : Sealed profile buf sub o o sub.size) {s s' : Survey}
    (hs : s.Agree o sub.size s') (hr : k < sub.size → Skip.Reach profile buf o (o + k)) :
    (survey profile buf (o + sub.size) s (o + k)).Agree o sub.size
      (survey profile sub sub.size s' k) := by
  have hb := h.wellFormed
  have hp := h.separate
  have ⟨hroles, hwords, hcolon⟩ := hs
  fun_induction survey profile sub sub.size s' k generalizing s
  case case1 s' k hk hd =>
    rw [isDefault_eq h.toExcerpt hk] at hd
    rw [survey, if_pos (by omega), if_pos hd]
    exact ⟨agree_markDefault h.toExcerpt hroles hk (Nat.le_refl _), hwords, hcolon⟩
  case case2 s' k hk hd hc ih =>
    rw [isDefault_eq h.toExcerpt hk] at hd
    rw [h.doubleColon_eq hk] at hc
    rw [survey, if_pos (by omega), if_neg hd, if_pos hc]
    rw [Buffer.matchesAt_doubleColon hb, Bool.and_eq_true] at hc
    refine ih hs (fun _ => ((hr hk).next ?first).next ?second) hroles hwords hcolon
    case first => exact Skip.quoted?_eq_none_of_isChar hb hp hc.1 (by decide)
    case second => exact Skip.quoted?_eq_none_of_isChar hb hp hc.2 (by decide)
  case case3 s' k hk hd hc hcol ih =>
    rw [isDefault_eq h.toExcerpt hk] at hd
    rw [h.doubleColon_eq hk] at hc
    rw [h.isChar_eq hk] at hcol
    rw [survey, if_pos (by omega), if_neg hd, if_neg hc, if_pos hcol]
    have hset := hroles.set k (some .nameTypeSeparator)
    refine ih ⟨hset, hwords, hwords⟩ (fun _ => (hr hk).next ?_) hset hwords hwords
    exact Skip.quoted?_eq_none_of_isChar hb hp hcol (by decide)
  case case4 s' k hk hd hc hcol w hw ih =>
    have hw' := h.at?_eq hk (Nat.le_refl _) (hr hk)
    rw [hw, Option.map_some] at hw'
    rw [isDefault_eq h.toExcerpt hk] at hd
    rw [h.doubleColon_eq hk] at hc
    rw [h.isChar_eq hk] at hcol
    rw [survey, if_pos (by omega), if_neg hd, if_neg hc, if_neg hcol]
    split
    case h_2 hn => cases hw'.symm.trans hn
    case h_1 v hv =>
      obtain rfl := Option.some.inj (hw'.symm.trans hv)
      have hwords := congrArg (· + 1) hwords
      exact ih ⟨hroles, hwords, hcolon⟩
        (fun hlt => (hr hk).trans (Word.reach_of_at? hb hp hw' (Nat.add_lt_add_left hlt o))) hroles
        hwords hcolon
  case case5 s' k hk hd hc hcol hw ih =>
    have hw' := h.at?_eq hk (Nat.le_refl _) (hr hk)
    rw [hw, Option.map_none] at hw'
    rw [isDefault_eq h.toExcerpt hk] at hd
    rw [h.doubleColon_eq hk] at hc
    rw [h.isChar_eq hk] at hcol
    rw [survey, if_pos (by omega), if_neg hd, if_neg hc, if_neg hcol]
    split
    case h_1 hv => cases hw'.symm.trans hv
    case h_2 =>
      exact ih hs (fun _ => (hr hk).next (Word.quoted?_eq_none_of_at? hw')) hroles hwords hcolon
  case case6 s' k hk =>
    rw [survey, if_neg (by omega)]
    exact hs

theorem agree_markPascalName (h : Excerpt buf sub o) (hp : profile.Separate)
    (hr : Agree o sub.size r r') (hl : l ≤ sub.size) {n : Nat} {words : List Word}
    (hw : ∀ w ∈ words, w.stop ≤ l)
    (hf : SuffixesFit profile buf o sub.size (markPascalName profile sub r' n words) 0 l) :
    Agree o sub.size (markPascalName profile buf r n (words.map (Word.shift o)))
      (markPascalName profile sub r' n words) := by
  fun_induction markPascalName profile sub r' n words generalizing r
  case case1 => exact hr
  case case2 => exact hr
  case case3 w words =>
    have hname := hw w (by simp)
    exact agree_markName h hp hr (hname.trans hl) (hf.mono (Nat.zero_le _) hname)
  case case4 w words ih => exact ih (agree_markModifier hr w) (fun v hv => hw v (.tail _ hv)) hf

theorem agree_markPascalType (h : Excerpt buf sub o) (hp : profile.Separate)
    (hr : Agree o sub.size r r') (hl : l ≤ sub.size) {n : Nat} {words : List Word}
    (hw : ∀ w ∈ words, w.stop ≤ l)
    (hf : SuffixesFit profile buf o sub.size (markPascalType profile sub r' n words) 0 l) :
    Agree o sub.size (markPascalType profile buf r n (words.map (Word.shift o)))
      (markPascalType profile sub r' n words) := by
  fun_induction markPascalType profile sub r' n words generalizing r
  case case1 => exact hr
  case case2 => exact hr
  case case3 w words =>
    have htype := hw w (by simp)
    exact agree_markType h hp hr (htype.trans hl) (hf.mono (Nat.zero_le _) htype)
  case case4 w words ih => exact ih (agree_markModifier hr w) (fun v hv => hw v (.tail _ hv)) hf

-- The words behind the colons are the same, since no colon starts a comment or a string.
theorem agree_wordsBehindColon (h : Sealed profile buf sub o o sub.size)
    (hr : Agree o sub.size r r')
    (hreach : k < sub.size → Skip.Reach profile buf o (o + k))
    (hcolon : ∀ m, k ≤ m → m < sub.size → r'.get m = some .nameTypeSeparator →
      sub.isChar m ':' = true ∨ sub.isChar m '=' = true) {n : Nat}
    (hf : SuffixesFit profile buf o sub.size
      (markPascalType profile sub r' n (Word.read profile sub (r'.get · = some .defaultSeparator)
        sub.size (Buffer.seek (r'.get · ≠ some .nameTypeSeparator) k sub.size)).1) 0 sub.size) :
    Agree o sub.size
      (markPascalType profile buf r n (Word.read profile buf (r.get · = some .defaultSeparator)
        (o + sub.size) (Buffer.seek (r.get · ≠ some .nameTypeSeparator) (o + k) (o + sub.size))).1)
      (markPascalType profile sub r' n (Word.read profile sub (r'.get · = some .defaultSeparator)
        sub.size (Buffer.seek (r'.get · ≠ some .nameTypeSeparator) k sub.size)).1) := by
  have hseek : Buffer.seek (r.get · ≠ some .nameTypeSeparator) (o + k) (o + sub.size) =
      o + Buffer.seek (r'.get · ≠ some .nameTypeSeparator) k sub.size :=
    Excerpt.seek_eq fun m _ hm => by rw [hr.get_eq m hm]
  have hstart : Buffer.seek (r'.get · ≠ some .nameTypeSeparator) k sub.size < sub.size →
      Skip.Reach profile buf o
        (o + Buffer.seek (r'.get · ≠ some .nameTypeSeparator) k sub.size) := by
    intro hlt
    rw [← hseek]
    refine (hreach ((Buffer.le_seek ..).trans_lt hlt)).trans (.seek fun p hp hps hn => ?_)
    obtain ⟨m, rfl⟩ := Nat.exists_eq_add_of_le (Nat.le_of_add_right_le hp)
    have hm : m < sub.size := Nat.lt_of_add_lt_add_left hps
    have hc := hcolon m (by omega) hm (by rw [← hr.get_eq m hm]; simpa using hn)
    rw [h.isChar_eq hm, h.isChar_eq hm] at hc
    rcases hc with hc | hc
    case inl => exact Skip.quoted?_eq_none_of_isChar h.wellFormed h.separate hc (by decide)
    case inr => exact Skip.quoted?_eq_none_of_isChar h.wellFormed h.separate hc (by decide)
  rw [hseek, h.read_eq (Nat.le_refl _) (p := (r'.get · = some .defaultSeparator))
    (fun m _ hm => by rw [hr.get_eq m hm]) hstart]
  exact agree_markPascalType h.toExcerpt h.separate hr (Nat.le_refl _)
    (fun w hw => (Word.bounds_of_mem_read profile sub hw).2) hf

theorem sameOutside_wordsBehindColon (hb : buf.WellFormed) {halt : Nat → Bool} {n : Nat} :
    SameOutside profile buf k (l + 1) r
      (markPascalType profile buf r n (Word.read profile buf halt l k).1) := by
  exact sameOutside_markPascalType profile hb (.inl (Nat.lt_succ_self l)) fun w hw =>
    Word.within_of_mem_read hw

-- Of the places behind the names only the first one can have been marked with them.
theorem isChar_of_markPascalName (hb : buf.WellFormed) (h : SeparatorsMarked buf r) {m n : Nat}
    (hr : (markPascalName profile buf r n
      (Word.read profile buf (isSeparator r) buf.size 0).1).get m = some .nameTypeSeparator)
    (hm : (Word.read profile buf (isSeparator r) buf.size 0).2 ≤ m) (hlt : m < buf.size) :
    buf.isChar m ':' = true ∨ buf.isChar m '=' = true := by
  rcases Nat.lt_or_eq_of_le hm with hm | rfl
  case inr => exact h _ (Word.halt_of_read_lt hlt)
  case inl =>
    have hframe : SameOutside profile buf 0 ((Word.read profile buf (isSeparator r) buf.size 0).2 + 1) r
        (markPascalName profile buf r n (Word.read profile buf (isSeparator r) buf.size 0).1) := by
      refine sameOutside_markPascalName profile hb (.inl (Nat.lt_succ_self _)) fun w hw => ?_
      exact ⟨Nat.zero_le _, Word.start_lt_stop_of_mem_read hw, Word.stop_le_of_mem_read hw⟩
    rw [hframe.get_eq m (.inr hm)] at hr
    exact h m (by simp [isSeparator, hr])

theorem agree_markPascal (h : Sealed profile buf sub o o sub.size) (hr : Agree o sub.size r r')
    (hnone : ∀ k, r'.get k = none)
    (hf : SuffixesFit profile buf o sub.size (markPascal profile sub r' 0 sub.size) 0 sub.size) :
    Agree o sub.size (markPascal profile buf r o (o + sub.size))
      (markPascal profile sub r' 0 sub.size) := by
  have hb := h.wellFormed
  have hsub := h.wellFormed_sub
  have hsurvey : Survey.Agree o sub.size
      (survey profile buf (o + sub.size) ⟨r, 0, 0⟩ o) (survey profile sub sub.size ⟨r', 0, 0⟩ 0) :=
    agree_survey (k := 0) h ⟨hr, rfl, rfl⟩ fun _ => .refl o
  have hmarked : SeparatorsMarked sub (survey profile sub sub.size ⟨r', 0, 0⟩ 0).roles :=
    SeparatorsMarked.survey hsub (fun k hk => by simp [isSeparator, hnone] at hk) _ _
  unfold markPascal at hf ⊢
  dsimp only at hf ⊢
  generalize survey profile sub sub.size ⟨r', 0, 0⟩ 0 = s' at hsurvey hmarked hf ⊢
  generalize survey profile buf (o + sub.size) ⟨r, 0, 0⟩ o = s at hsurvey ⊢
  obtain ⟨hroles, hwords, hcolon⟩ := hsurvey
  have hread : Word.read profile buf (isSeparator s.roles) (o + sub.size) o = _ :=
    h.read_eq (k := 0) (Nat.le_refl sub.size) (p := isSeparator s'.roles)
      (fun m _ hm => by rw [isSeparator, isSeparator, hroles.get_eq m hm]) fun _ => .refl o
  have hreach : (Word.read profile buf (isSeparator s.roles) (o + sub.size) o).2 < o + sub.size →
      Skip.Reach profile buf o (Word.read profile buf (isSeparator s.roles) (o + sub.size) o).2 :=
    Word.reach_read hb h.separate
  have hle := Word.read_le profile sub (isSeparator s'.roles) (Nat.zero_le sub.size)
  rw [hread] at hreach
  rw [hread, hwords, hcolon]
  refine agree_wordsBehindColon h ?_ (fun hlt => hreach (Nat.add_lt_add_left hlt o))
    (fun m hm hlt hc => isChar_of_markPascalName hsub hmarked hc hm hlt) hf
  refine agree_markPascalName h.toExcerpt h.separate hroles hle (fun w hw => Word.stop_le_of_mem_read hw) ?_
  exact (hf.mono (Nat.le_refl _) hle).before (sameOutside_wordsBehindColon hsub) (Buffer.le_seek ..)

-- A declaration that fills the part is marked alike, if the brackets behind names and types fit.
theorem agree_mark (h : Sealed profile buf sub o o sub.size) (hr : Agree o sub.size r r')
    (hnone : ∀ k, r'.get k = none) (style : Style)
    (hf : SuffixesFit profile buf o sub.size (mark profile sub style r' 0 sub.size) 0 sub.size) :
    Agree o sub.size (mark profile buf style r o (o + sub.size))
      (mark profile sub style r' 0 sub.size) := by
  cases style
  case c => exact agree_markC h hr hf
  case pascal => exact agree_markPascal h hr hnone hf

end SourceDocs.Prototype

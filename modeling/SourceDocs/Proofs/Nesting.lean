import SourceDocs.Proofs.Buffer
import SourceDocs.Skip

namespace SourceDocs

def IsSymbolic (s : String) : Prop :=
  s.toList ≠ [] ∧ ∀ c ∈ s.toList, Token.Kind.ofChar c = .symbol

instance : DecidablePred IsSymbolic := fun _ =>
  inferInstanceAs (Decidable (_ ∧ _))

namespace Profile

variable (profile : Profile)

def starters : List String :=
  profile.lineComments ++ profile.blockComments.map (·.opener)

-- No comment starts where a bracket or a separator stands, or where a name goes on.
@[mk_iff]
structure Separate : Prop where
  symbols : ∀ s ∈ profile.starters ++ profile.blockComments.map (·.closer), IsSymbolic s
  starts : ∀ s ∈ profile.starters, ∀ c ∈ s.toList.head?,
    c ∉ "()[]\x7b\x7d<>,;=.?:_*&^$@%".toList

instance : DecidablePred Separate := fun profile =>
  decidable_of_iff' _ (separate_iff profile)

end Profile

namespace Skip

variable {profile : Profile} {buf : Buffer} {i j : Nat}

theorem isSymbolic_of_blockSymbols? (hp : profile.Separate) {s : BlockSymbols}
    (hs : blockSymbols? profile buf i = some s) : IsSymbolic s.closer :=
  hp.symbols _ (List.mem_append_right _ (List.mem_map_of_mem (List.mem_of_find?_eq_some hs)))

theorem skip?_eq {s : String} (hb : buf.WellFormed) (hs : IsSymbolic s) :
    buf.skip? i s false = if buf.spells i s.toList then some (i + s.toList.length) else none := by
  rw [Buffer.skip?, Buffer.matchLength?_symbols hb hs.2]
  by_cases hsp : buf.spells i s.toList <;> simp [hsp, hs.1]

theorem closeComments_end {closers : List String} (hi : buf.size ≤ i) :
    closeComments profile buf i closers = i := by
  cases closers
  case nil => simp [closeComments]
  case cons => rw [closeComments, if_neg (by omega)]

theorem closeComments_close {closer : String} {outer : List String} (hi : i < buf.size)
    (h : buf.skip? i closer false = some j) :
    closeComments profile buf i (closer :: outer) = closeComments profile buf j outer := by
  rw [closeComments, if_pos hi]
  split
  case h_1 _ h' => cases h.symm.trans h'; rfl
  case h_2 h' => cases h.symm.trans h'

theorem closeComments_open {closer : String} {outer : List String} {s : BlockSymbols}
    (hi : i < buf.size) (h : buf.skip? i closer false = none)
    (hs : (if profile.blockCommentsNest then blockSymbols? profile buf i else none) = some s) :
    closeComments profile buf i (closer :: outer) =
      closeComments profile buf (buf.afterChars i s.opener.utf8ByteSize)
        (s.closer :: closer :: outer) := by
  rw [closeComments, if_pos hi]
  split
  case h_1 _ h' => cases h.symm.trans h'
  case h_2 =>
    split
    case h_1 _ h' => cases hs.symm.trans h'; rfl
    case h_2 h' => cases hs.symm.trans h'

theorem closeComments_other {closer : String} {outer : List String} (hi : i < buf.size)
    (h : buf.skip? i closer false = none)
    (hs : (if profile.blockCommentsNest then blockSymbols? profile buf i else none) = none) :
    closeComments profile buf i (closer :: outer) =
      closeComments profile buf (i + 1) (closer :: outer) := by
  rw [closeComments, if_pos hi]
  split
  case h_1 _ h' => cases h.symm.trans h'
  case h_2 =>
    split
    case h_1 _ h' => cases hs.symm.trans h'
    case h_2 => rfl

variable {angle : Bool} {closer : Char} {outer : List Char}

theorem closeBlocks_nil : closeBlocks profile buf angle i [] = i := by
  rw [closeBlocks]

theorem closeBlocks_end {closers : List Char} (hi : buf.size ≤ i) :
    closeBlocks profile buf angle i closers = i := by
  cases closers
  case nil => exact closeBlocks_nil
  case cons => rw [closeBlocks, if_neg (by omega)]

theorem closeBlocks_open {c : Char} (hi : i < buf.size) (h : opens? buf angle i = some c) :
    closeBlocks profile buf angle i (closer :: outer) =
      closeBlocks profile buf angle (i + 1) (c :: closer :: outer) := by
  rw [closeBlocks, if_pos hi]
  split
  case h_1 _ h' => cases h.symm.trans h'; rfl
  case h_2 h' => cases h.symm.trans h'

theorem closeBlocks_close (hi : i < buf.size) (h : opens? buf angle i = none)
    (hc : buf.isChar i closer = true) :
    closeBlocks profile buf angle i (closer :: outer) =
      closeBlocks profile buf angle (i + 1) outer := by
  rw [closeBlocks, if_pos hi]
  split
  case h_1 _ h' => cases h.symm.trans h'
  case h_2 => rw [if_pos hc]

theorem closeBlocks_quoted (hi : i < buf.size) (h : opens? buf angle i = none)
    (hc : buf.isChar i closer = false) (hq : quoted? profile buf i = some j) :
    closeBlocks profile buf angle i (closer :: outer) =
      closeBlocks profile buf angle j (closer :: outer) := by
  rw [closeBlocks, if_pos hi]
  split
  case h_1 _ h' => cases h.symm.trans h'
  case h_2 =>
    rw [if_neg (by simp [hc])]
    split
    case h_1 _ h' => cases hq.symm.trans h'; rfl
    case h_2 h' => cases hq.symm.trans h'

theorem closeBlocks_other (hi : i < buf.size) (h : opens? buf angle i = none)
    (hc : buf.isChar i closer = false) (hq : quoted? profile buf i = none) :
    closeBlocks profile buf angle i (closer :: outer) =
      closeBlocks profile buf angle (i + 1) (closer :: outer) := by
  rw [closeBlocks, if_pos hi]
  split
  case h_1 _ h' => cases h.symm.trans h'
  case h_2 =>
    rw [if_neg (by simp [hc])]
    split
    case h_1 _ h' => cases hq.symm.trans h'
    case h_2 => rfl

theorem exists_isChar_of_matchesAt (hb : buf.WellFormed) {s : String} (hs : IsSymbolic s)
    (h : buf.matchesAt i s = true) : ∃ c ∈ s.toList.head?, buf.isChar i c = true := by
  rw [Buffer.matchesAt_symbols hb hs.2, Bool.and_eq_true] at h
  obtain ⟨c, cs, hc⟩ := List.exists_cons_of_ne_nil hs.1
  rw [hc, Buffer.spells, Bool.and_eq_true] at h
  exact ⟨c, by simp [hc], h.2.1⟩

theorem exists_isChar_of_quoted? (hb : buf.WellFormed) (hp : profile.Separate)
    (h : quoted? profile buf i = some j) :
    ∃ c, buf.isChar i c = true ∧ c ∉ "()[]\x7b\x7d<>,;=.?:_*&^$@%".toList := by
  have hstarter {s : String} (hs : s ∈ profile.starters) (hm : buf.matchesAt i s = true) :
      ∃ c, buf.isChar i c = true ∧ c ∉ "()[]\x7b\x7d<>,;=.?:_*&^$@%".toList := by
    have ⟨c, hc, hi⟩ := exists_isChar_of_matchesAt hb (hp.symbols s (List.mem_append_left _ hs)) hm
    exact ⟨c, hi, hp.starts s hs c hc⟩
  simp only [quoted?, comment?, Option.or_eq_some_iff, blockComment?, lineComment?,
    Option.map_eq_some_iff] at h
  -- A block comment, a line comment or a string, in the order in which they are looked for.
  rcases h with (⟨s, hs, -⟩ | ⟨-, s, hs, -⟩) | ⟨-, h⟩
  case inl.inl =>
    exact hstarter (List.mem_append_right _ (List.mem_map_of_mem (List.mem_of_find?_eq_some hs)))
      (by simpa using List.find?_some hs)
  case inl.inr =>
    exact hstarter (List.mem_append_left _ (List.mem_of_find?_eq_some hs)) (List.find?_some hs)
  case inr =>
    unfold string? at h
    split at h
    case h_2 => cases h
    case h_1 c hc =>
      refine ⟨c, by simp [Buffer.isChar, hc], ?_⟩
      split at h
      case isFalse => cases h
      case isTrue hq => rcases hq with rfl | rfl <;> decide

theorem quoted?_eq_none (hb : buf.WellFormed) (hp : profile.Separate)
    (h : ∀ c, buf.isChar i c = true → c ∈ "()[]\x7b\x7d<>,;=.?:_*&^$@%".toList) :
    quoted? profile buf i = none := by
  cases hq : quoted? profile buf i
  case none => rfl
  case some =>
    have ⟨c, hi, hc⟩ := exists_isChar_of_quoted? hb hp hq
    exact absurd (h c hi) hc

theorem quoted?_eq_none_of_isChar (hb : buf.WellFormed) (hp : profile.Separate) {c : Char}
    (hi : buf.isChar i c = true) (hc : c ∈ "()[]\x7b\x7d<>,;=.?:_*&^$@%".toList) :
    quoted? profile buf i = none :=
  quoted?_eq_none hb hp fun _ hd => Buffer.eq_of_isChar hi hd ▸ hc

def AreClosers (closers : List Char) : Prop :=
  ∀ c ∈ closers, c ∈ ")]\x7d>".toList

theorem exists_of_opens? {angle : Bool} {c : Char} (h : opens? buf angle i = some c) :
    ∃ b ∈ "([\x7b<".toList, buf.isChar i b = true ∧ c ∈ ")]\x7d>".toList := by
  unfold opens? at h
  split at h
  case h_2 => cases h
  case h_1 b hb =>
    split at h
    case isTrue => cases h
    case isFalse =>
      refine ⟨b, ?_, by simp [Buffer.isChar, hb], ?_⟩ <;>
        (unfold Text.closing? at h; split at h <;> cases h <;> decide)

theorem not_isPointer_of_opens? {angle : Bool} {c : Char} (h : opens? buf angle i = some c) :
    isPointer buf i = false ∧ buf.isBlank i = false := by
  have ⟨b, hm, hi, _⟩ := exists_of_opens? h
  refine ⟨?_, Buffer.not_isBlank_of_isChar hi⟩
  rw [Buffer.isChar, decide_eq_true_eq] at hi
  have hb : ∀ b ∈ "([\x7b<".toList, (b = '*' || b = '&' || b = '^') = false := by decide
  rw [isPointer, hi]
  exact hb b hm

-- No comment and no string starts at a bracket or at a separator of a list.
def Bare (profile : Profile) (buf : Buffer) : Prop :=
  ∀ i, ∀ c ∈ "()[]\x7b\x7d<>,;".toList, buf.isChar i c = true → quoted? profile buf i = none

theorem bare_of_separate (hb : buf.WellFormed) (hp : profile.Separate) : Bare profile buf := by
  have hsub : ∀ c ∈ "()[]\x7b\x7d<>,;".toList, c ∈ "()[]\x7b\x7d<>,;=.?:_*&^$@%".toList := by
    decide
  exact fun i c hc hi => quoted?_eq_none_of_isChar hb hp hi (hsub c hc)

theorem Bare.of_opens? (h : Bare profile buf) {angle : Bool} {c : Char}
    (hc : opens? buf angle i = some c) : quoted? profile buf i = none := by
  have ⟨b, hm, hi, _⟩ := exists_of_opens? hc
  have hsub : ∀ b ∈ "([\x7b<".toList, b ∈ "()[]\x7b\x7d<>,;".toList := by decide
  exact h i b (hsub b hm) hi

theorem Bare.of_closer (h : Bare profile buf) {c : Char} (hc : c ∈ ")]\x7d>".toList)
    (hi : buf.isChar i c = true) : quoted? profile buf i = none := by
  have hsub : ∀ b ∈ ")]\x7d>".toList, b ∈ "()[]\x7b\x7d<>,;".toList := by decide
  exact h i c (hsub c hc) hi

theorem quoted?_eq_none_of_opens? (hb : buf.WellFormed) (hp : profile.Separate) {angle : Bool}
    {c : Char} (h : opens? buf angle i = some c) : quoted? profile buf i = none :=
  (bare_of_separate hb hp).of_opens? h

theorem quoted?_eq_none_of_closer (hb : buf.WellFormed) (hp : profile.Separate) {c : Char}
    (hc : c ∈ ")]\x7d>".toList) (hi : buf.isChar i c = true) : quoted? profile buf i = none :=
  (bare_of_separate hb hp).of_closer hc hi

theorem AreClosers.cons {c : Char} {closers : List Char} {angle : Bool} (h : AreClosers closers)
    (hc : opens? buf angle i = some c) : AreClosers (c :: closers) := by
  have ⟨_, _, _, hm⟩ := exists_of_opens? hc
  rintro d (_ | ⟨_, hd⟩)
  · exact hm
  · exact h d hd

-- The inner brackets of a stack are closed first, and then the outer ones from there on.
theorem closeBlocks_append (angle : Bool) (i : Nat) (cs ds : List Char) :
    closeBlocks profile buf angle i (cs ++ ds) =
      closeBlocks profile buf angle (closeBlocks profile buf angle i cs) ds := by
  fun_induction closeBlocks profile buf angle i cs
  case case1 => rfl
  case case2 hi _ hc ih => rw [List.cons_append, closeBlocks_open hi hc]; exact ih
  case case3 hi hn hc ih => rw [List.cons_append, closeBlocks_close hi hn hc]; exact ih
  case case4 hi hn hc _ hq ih =>
    rw [List.cons_append, closeBlocks_quoted hi hn (by simpa using hc) hq]; exact ih
  case case5 hi hn hc hq ih =>
    rw [List.cons_append, closeBlocks_other hi hn (by simpa using hc) hq]; exact ih
  case case6 hi => rw [closeBlocks_end (by omega), closeBlocks_end (by omega)]

theorem closeBlocks_le_append (angle : Bool) (i : Nat) (cs ds : List Char) :
    closeBlocks profile buf angle i cs ≤ closeBlocks profile buf angle i (cs ++ ds) := by
  rw [closeBlocks_append]
  exact le_closeBlocks ..

theorem opens?_false_of_true (h : opens? buf true i = none) : opens? buf false i = none := by
  unfold opens? at h ⊢
  split
  case h_2 => rfl
  case h_1 c hc =>
    simp only [hc] at h
    split
    case isTrue => rfl
    case isFalse => simpa using h

theorem opens?_true_of_false {c : Char} (h : opens? buf false i = some c) :
    opens? buf true i = some c := by
  unfold opens? at h ⊢
  split at h
  case h_2 => cases h
  case h_1 b hb =>
    split at h
    case isTrue => cases h
    case isFalse => simpa using h

theorem not_isChar_closer {angle : Bool} {c d : Char} (h : opens? buf angle i = some c)
    (hd : d ∈ ")]\x7d>".toList) : buf.isChar i d = false := by
  have ⟨b, hb, hi, _⟩ := exists_of_opens? h
  rw [Bool.eq_false_iff]
  intro hc
  obtain rfl := Buffer.eq_of_isChar hi hc
  have hdisj : ∀ b ∈ "([\x7b<".toList, b ∉ ")]\x7d>".toList := by decide
  exact hdisj _ hb hd

-- Angle brackets only delay the end of a block: the brackets that are open without them are always
-- among those that are open with them.
theorem closeBlocks_le_of_sublist (hbare : Bare profile buf) {cs ds : List Char}
    (hs : cs.Sublist ds) (hd : AreClosers ds) :
    closeBlocks profile buf false i cs ≤ closeBlocks profile buf true i ds := by
  fun_induction closeBlocks profile buf true i ds generalizing cs
  case case1 i =>
    obtain rfl := List.eq_nil_of_sublist_nil hs
    rw [closeBlocks_nil]
  case case2 i closer outer hi c hc ih =>
    have hle := le_closeBlocks profile buf true (i + 1) (c :: closer :: outer)
    cases cs
    case nil => rw [closeBlocks_nil]; omega
    case cons f fs =>
      have hf := not_isChar_closer hc (hd f (hs.subset (.head _)))
      have hq := hbare.of_opens? hc
      cases ho : opens? buf false i
      case none =>
        -- An angle bracket, which is one more to close in the second skip only.
        rw [closeBlocks_other hi ho hf hq]
        exact ih (hs.trans (List.sublist_cons_self ..)) (hd.cons hc)
      case some c' =>
        obtain rfl := Option.some.inj (hc.symm.trans (opens?_true_of_false ho))
        rw [closeBlocks_open hi ho]
        exact ih (hs.cons_cons _) (hd.cons hc)
  case case3 i closer outer hi hn hc ih =>
    have hle := le_closeBlocks profile buf true (i + 1) outer
    have hd' : AreClosers outer := fun d hm => hd d (.tail _ hm)
    cases cs
    case nil => rw [closeBlocks_nil]; omega
    case cons f fs =>
      have ho := opens?_false_of_true hn
      cases hf : buf.isChar i f
      case true =>
        obtain rfl := Buffer.eq_of_isChar hc hf
        rw [closeBlocks_close hi ho hf]
        exact ih (List.cons_sublist_cons.mp hs) hd'
      case false =>
        -- The bracket that is closed is none of the first skip, which goes on with the same stack.
        have hne : f ≠ closer := by
          rintro rfl
          simp [hc] at hf
        have hq := hbare.of_closer (hd closer (.head _)) hc
        rw [closeBlocks_other hi ho hf hq]
        refine ih ?_ hd'
        cases hs
        case cons hs => exact hs
        case cons_cons => exact absurd rfl hne
  case case4 i closer outer hi hn hc j hq ih =>
    have hle := le_closeBlocks profile buf true j (closer :: outer)
    have hj := lt_quoted? profile buf hq
    cases cs
    case nil => rw [closeBlocks_nil]; omega
    case cons f fs =>
      have hf : buf.isChar i f = false := by
        rw [Bool.eq_false_iff]
        intro hf
        cases hq.symm.trans (hbare.of_closer (hd f (hs.subset (.head _))) hf)
      rw [closeBlocks_quoted hi (opens?_false_of_true hn) hf hq]
      exact ih hs hd
  case case5 i closer outer hi hn hc hq ih =>
    have hle := le_closeBlocks profile buf true (i + 1) (closer :: outer)
    cases cs
    case nil => rw [closeBlocks_nil]; omega
    case cons f fs =>
      have ho := opens?_false_of_true hn
      cases hf : buf.isChar i f
      case true =>
        rw [closeBlocks_close hi ho hf]
        exact ih ((List.sublist_cons_self ..).trans hs) hd
      case false =>
        rw [closeBlocks_other hi ho hf hq]
        exact ih hs hd
  case case6 i closer outer hi => rw [closeBlocks_end (by omega)]

theorem quoted?_eq_none_of_isBlank (hb : buf.WellFormed) (hp : profile.Separate)
    (h : buf.isBlank i = true) : quoted? profile buf i = none :=
  quoted?_eq_none hb hp fun c hc => by simp [Buffer.not_isBlank_of_isChar hc] at h

theorem quoted?_eq_none_of_isNameSymbol (hb : buf.WellFormed) (hp : profile.Separate)
    (h : isNameSymbol buf i = true) : quoted? profile buf i = none := by
  unfold isNameSymbol at h
  split at h
  case h_2 => cases h
  case h_1 c hc =>
    have hsub : ∀ b ∈ "_*&^$@%".toList, b ∈ "()[]\x7b\x7d<>,;=.?:_*&^$@%".toList := by decide
    exact quoted?_eq_none_of_isChar hb hp (by simp [Buffer.isChar, hc])
      (hsub c (List.contains_iff_mem.mp h))

theorem not_isBlank_of_name (h : buf.isText i || isNameSymbol buf i) : buf.isBlank i = false := by
  simp only [isNameSymbol, Buffer.symbol?, Buffer.isSymbol, Buffer.isText, Buffer.isBlank] at *
  cases hk : buf.kind? i
  case none => rfl
  case some kind => cases kind <;> simp_all

theorem quoted?_eq_none_of_name (hb : buf.WellFormed) (hp : profile.Separate)
    (h : (buf.isText i || isNameSymbol buf i || buf.isChar i '.' || buf.isChar i '?') = true) :
    quoted? profile buf i = none := by
  simp only [Bool.or_eq_true] at h
  rcases h with ((h | h) | h) | h
  · exact quoted?_eq_none hb hp fun c hc => by simp [Buffer.not_isText_of_isChar hc] at h
  · exact quoted?_eq_none_of_isNameSymbol hb hp h
  · exact quoted?_eq_none_of_isChar hb hp h (by decide)
  · exact quoted?_eq_none_of_isChar hb hp h (by decide)

theorem quoted?_eq_none_of_isTypeSuffix (hb : buf.WellFormed) (hp : profile.Separate)
    (h : isTypeSuffix buf i = true) : quoted? profile buf i = none := by
  simp only [isTypeSuffix, Bool.or_eq_true, Bool.and_eq_true] at h
  rcases h with h | ⟨h, -⟩
  case inl =>
    refine quoted?_eq_none_of_isNameSymbol hb hp ?_
    unfold isPointer at h
    unfold isNameSymbol
    split at h
    case h_2 => cases h
    case h_1 c hc =>
      simp only [Bool.or_eq_true, decide_eq_true_eq] at h
      rcases h with (rfl | rfl) | rfl <;> simp
  case inr =>
    refine quoted?_eq_none hb hp fun c hc => ?_
    obtain ⟨t, ht, hk, -⟩ := Buffer.isChar_iff.mp hc
    have hw := hb.token ht
    simp only [Token.WellFormed, hk] at hw
    obtain ⟨d, -, hd⟩ := hw
    simp [Buffer.isToken, Buffer.chars, ht, hd] at h

-- `j` is reached from `i` token by token, with comments and strings passed as a whole.
inductive Reach (profile : Profile) (buf : Buffer) : Nat → Nat → Prop
  | refl (i : Nat) : Reach profile buf i i
  | step {i j : Nat} (hq : quoted? profile buf i = none) (h : Reach profile buf (i + 1) j) :
    Reach profile buf i j
  | jump {i j k : Nat} (hq : quoted? profile buf i = some k) (h : Reach profile buf k j) :
    Reach profile buf i j

namespace Reach

variable {k : Nat}

theorem le (h : Reach profile buf i j) : i ≤ j := by
  induction h
  case refl => exact Nat.le_refl _
  case step hi => omega
  case jump hq _ hi =>
    have := lt_quoted? profile buf hq
    omega

theorem trans (h : Reach profile buf i j) (h' : Reach profile buf j k) : Reach profile buf i k := by
  induction h
  case refl => exact h'
  case step hq _ hi => exact .step hq (hi h')
  case jump hq _ hi => exact .jump hq (hi h')

theorem next (h : Reach profile buf i j) (hq : quoted? profile buf j = none) :
    Reach profile buf i (j + 1) :=
  h.trans (.step hq (.refl _))

theorem of_step (h : Reach profile buf i j) (hq : quoted? profile buf i = none) :
    j = i ∨ Reach profile buf (i + 1) j := by
  cases h
  case refl => exact .inl rfl
  case step h => exact .inr h
  case jump hq' _ => cases hq.symm.trans hq'

theorem of_jump (h : Reach profile buf i j) (hq : quoted? profile buf i = some k) :
    j = i ∨ Reach profile buf k j := by
  cases h
  case refl => exact .inl rfl
  case step hq' _ => cases hq.symm.trans hq'
  case jump hq' h => exact .inr (Option.some.inj (hq'.symm.trans hq) ▸ h)

theorem closeBlocks (hb : buf.WellFormed) (hp : profile.Separate) (angle : Bool)
    {closers : List Char} (hc : AreClosers closers) :
    Reach profile buf i (Skip.closeBlocks profile buf angle i closers) := by
  fun_induction Skip.closeBlocks profile buf angle i closers
  case case1 => exact .refl _
  case case2 hc' ih => exact .step (quoted?_eq_none_of_opens? hb hp hc') (ih (hc.cons hc'))
  case case3 hc' ih =>
    exact .step (quoted?_eq_none_of_closer hb hp (hc _ (.head _)) hc') (ih fun d hd => hc d (.tail _ hd))
  case case4 hq ih => exact .jump hq (ih hc)
  case case5 hq ih => exact .step hq (ih hc)
  case case6 => exact .refl _

theorem block (hb : buf.WellFormed) (hp : profile.Separate) {angle : Bool}
    (h : block? profile buf angle i = some j) : Reach profile buf i j := by
  simp only [block?, Option.map_eq_some_iff] at h
  obtain ⟨c, hc, rfl⟩ := h
  refine .step (quoted?_eq_none_of_opens? hb hp hc) (closeBlocks hb hp angle ?_)
  exact AreClosers.cons (fun _ hd => absurd hd List.not_mem_nil) hc

theorem seek {p : Nat → Bool} {limit : Nat}
    (h : ∀ m, i ≤ m → m < limit → p m = false → quoted? profile buf m = none) :
    Reach profile buf i (Buffer.seek p i limit) := by
  fun_induction Buffer.seek p i limit
  case case2 i hi hn ih =>
    have hq := h i (Nat.le_refl _) hi (by simpa using hn)
    exact .step hq (ih fun m hm => h m (by omega))
  all_goals exact .refl _

theorem afterBlanks (hb : buf.WellFormed) (hp : profile.Separate) (limit : Nat) :
    Reach profile buf i (buf.afterBlanks i limit) :=
  seek fun _ _ _ hn => quoted?_eq_none_of_isBlank hb hp (by simpa using hn)

theorem afterSuffixes (hb : buf.WellFormed) (hp : profile.Separate) {limit next : Nat}
    (h : Reach profile buf k i) (hn : Reach profile buf k next) :
    Reach profile buf k (Skip.afterSuffixes buf limit i next) := by
  fun_induction Skip.afterSuffixes buf limit i next
  case case1 hs ih =>
    have hn := hn.next (quoted?_eq_none_of_isTypeSuffix hb hp hs.2)
    exact ih hn (hn.trans (afterBlanks hb hp _))
  case case2 => exact h

theorem typeArguments (hb : buf.WellFormed) (hp : profile.Separate) {limit : Nat}
    (h : typeArguments? profile buf limit i = some j) : Reach profile buf i j := by
  unfold typeArguments? at h
  split at h
  case isTrue => cases h
  case isFalse => exact block hb hp (Option.filter_eq_some_iff.mp h).1

theorem nameEnd (hb : buf.WellFormed) (hp : profile.Separate) (limit : Nat) :
    Reach profile buf i (Skip.nameEnd profile buf limit i) := by
  fun_induction Skip.nameEnd profile buf limit i
  case case1 hc ih => exact .step (quoted?_eq_none_of_name hb hp hc) ih
  case case2 hm ih =>
    rw [Buffer.matchesAt_doubleColon hb, Bool.and_eq_true] at hm
    exact .step (quoted?_eq_none_of_isChar hb hp hm.1 (by decide))
      (.step (quoted?_eq_none_of_isChar hb hp hm.2 (by decide)) ih)
  case case3 hj ih => exact (typeArguments hb hp hj).trans ih
  case case4 i _ _ _ hc _ ih =>
    refine .step (quoted?_eq_none_of_isChar hb hp hc (by decide)) (.trans (seek ?_) ih)
    exact fun m _ _ hn => quoted?_eq_none_of_isChar hb hp (by simpa using hn) (by decide)
  case case5 hj _ ih => exact (block hb hp hj).trans ih
  case case7 => exact afterSuffixes hb hp (.refl _) (afterBlanks hb hp limit)
  all_goals exact .refl _

end Reach

theorem nameEnd_eq_ite (limit i : Nat) :
    nameEnd profile buf limit i =
      if i < limit then
        if buf.isText i || isNameSymbol buf i || buf.isChar i '.' || buf.isChar i '?' then
          nameEnd profile buf limit (i + 1)
        else if buf.matchesAt i "::" then nameEnd profile buf limit (i + 2)
        else if buf.isChar i '<' then
          match typeArguments? profile buf limit i with
          | some j => nameEnd profile buf limit j
          | none => nameEnd profile buf limit (Buffer.seek (!buf.isChar · '<') (i + 1) limit)
        else
          match block? profile buf false i with
          | some j => if j ≤ limit then nameEnd profile buf limit j else i
          | none => if buf.isBlank i then afterSuffixes buf limit i (buf.afterBlanks i limit) else i
      else i := by
  -- The matches keep their equations for the termination, and so they are not the same terms.
  rw [nameEnd]
  repeat' split
  all_goals grind

-- What starts at `p` ends at `j` at the latest.
structure Ends (profile : Profile) (buf : Buffer) (p j : Nat) : Prop where
  quoted : ∀ k, quoted? profile buf p = some k → k ≤ j
  block : ∀ angle k, block? profile buf angle p = some k → k ≤ j

theorem Ends.mono {p k : Nat} (h : Ends profile buf p j) (hk : j ≤ k) : Ends profile buf p k :=
  ⟨fun m hm => (h.quoted m hm).trans hk, fun angle m hm => (h.block angle m hm).trans hk⟩

theorem Ends.of_opens (hb : buf.WellFormed) (hp : profile.Separate) {c : Char} {cs : List Char}
    (hc : opens? buf true i = some c) (hcs : AreClosers cs) :
    Ends profile buf i (closeBlocks profile buf true (i + 1) (c :: cs)) where
  quoted k hk := by cases (quoted?_eq_none_of_opens? hb hp hc).symm.trans hk
  block angle k hk := by
    simp only [block?, Option.map_eq_some_iff] at hk
    obtain ⟨c', hc', rfl⟩ := hk
    have hsub : [c].Sublist (c :: cs) := (List.nil_sublist cs).cons_cons c
    -- With angle brackets it is the first one of the blocks, without them it ends even earlier.
    cases angle
    case true =>
      obtain rfl := Option.some.inj (hc.symm.trans hc')
      exact closeBlocks_le_append true (i + 1) [c] cs
    case false =>
      obtain rfl := Option.some.inj (hc.symm.trans (opens?_true_of_false hc'))
      exact closeBlocks_le_of_sublist (bare_of_separate hb hp) hsub (hcs.cons hc)

theorem Ends.of_quoted (ho : opens? buf true i = none)
    (hq : ∀ k, quoted? profile buf i = some k → k ≤ j) : Ends profile buf i j where
  quoted := hq
  block angle k hk := by
    simp only [block?, Option.map_eq_some_iff] at hk
    obtain ⟨c, hc, -⟩ := hk
    cases angle
    case true => cases ho.symm.trans hc
    case false => cases (opens?_false_of_true ho).symm.trans hc

-- A position within a block is one where what starts there ends in the block too; every other
-- position is reached from the end of the block.
theorem closeBlocks_ends (hb : buf.WellFormed) (hp : profile.Separate) {closers : List Char}
    (hc : AreClosers closers) {p : Nat} (h : Reach profile buf i p) :
    Reach profile buf (closeBlocks profile buf true i closers) p ∨
      Ends profile buf p (closeBlocks profile buf true i closers) := by
  fun_induction closeBlocks profile buf true i closers
  case case1 => exact .inl h
  case case2 i closer outer hi c ho ih =>
    rcases h.of_step (quoted?_eq_none_of_opens? hb hp ho) with rfl | h
    case inl => exact .inr (.of_opens hb hp ho hc)
    case inr => exact ih (hc.cons ho) h
  case case3 i closer outer hi hn hcl ih =>
    have hq := quoted?_eq_none_of_closer hb hp (hc _ (.head _)) hcl
    rcases h.of_step hq with rfl | h
    case inl => exact .inr (.of_quoted hn fun k hk => by cases hq.symm.trans hk)
    case inr => exact ih (fun d hd => hc d (.tail _ hd)) h
  case case4 i closer outer hi hn _ j hq ih =>
    rcases h.of_jump hq with rfl | h
    case inl =>
      refine .inr (.of_quoted hn fun k hk => ?_)
      obtain rfl := Option.some.inj (hq.symm.trans hk)
      exact le_closeBlocks ..
    case inr => exact ih hc h
  case case5 i closer outer hi hn _ hq ih =>
    rcases h.of_step hq with rfl | h
    case inl => exact .inr (.of_quoted hn fun k hk => by cases hq.symm.trans hk)
    case inr => exact ih hc h
  case case6 => exact .inl h

theorem not_isBlank_of_spells {cs : List Char} (h : buf.spells i cs = true) (hcs : cs ≠ []) :
    buf.isBlank (i + cs.length - 1) = false := by
  induction cs generalizing i
  case nil => exact absurd rfl hcs
  case cons c cs hi =>
    simp only [Buffer.spells, Bool.and_eq_true] at h
    cases cs
    case nil => exact Buffer.not_isBlank_of_isChar h.1
    case cons d ds =>
      have := hi h.2 (by simp)
      simpa [show i + 1 + (ds.length + 1) - 1 = i + (ds.length + 1 + 1) - 1 by omega] using this

theorem not_isBlank_closeComments (hb : buf.WellFormed) (hp : profile.Separate)
    {closers : List String} (hc : ∀ s ∈ closers, IsSymbolic s) (hne : closers ≠ [])
    (hlt : closeComments profile buf i closers < buf.size) :
    buf.isBlank (closeComments profile buf i closers - 1) = false := by
  fun_induction closeComments profile buf i closers
  case case1 => exact absurd rfl hne
  case case2 i closer outer _ j hj ih =>
    cases outer
    case cons => exact ih (fun s hs => hc s (.tail _ hs)) (by simp) hlt
    case nil =>
      have hcl := hc closer (.head _)
      rw [skip?_eq hb hcl] at hj
      split at hj
      case isFalse => cases hj
      case isTrue hsp =>
        cases hj
        rw [closeComments]
        exact not_isBlank_of_spells hsp hcl.1
  case case3 i closer outer _ _ s hs ih =>
    refine ih (fun t ht => ?_) (by simp) hlt
    split at hs
    case isFalse => cases hs
    case isTrue =>
      cases ht
      case head => exact isSymbolic_of_blockSymbols? hp hs
      case tail ht => exact hc t ht
  case case4 ih => exact ih hc hne hlt
  case case5 hi => omega

theorem not_isBlank_closeString {quote : Char} (hlt : closeString buf quote i < buf.size) :
    buf.isBlank (closeString buf quote i - 1) = false := by
  fun_induction closeString buf quote i
  case case1 hc => exact Buffer.not_isBlank_of_isChar hc
  case case2 ih => exact ih hlt
  case case3 ih => exact ih hlt
  case case4 hi => omega

theorem closed_closeBlocks {angle : Bool} {closers : List Char} (hne : closers ≠ [])
    (hlt : closeBlocks profile buf angle i closers < buf.size) :
    buf.isBlank (closeBlocks profile buf angle i closers - 1) = false ∧
      opens? buf angle (closeBlocks profile buf angle i closers - 1) = none := by
  fun_induction closeBlocks profile buf angle i closers
  case case1 => exact absurd rfl hne
  case case2 ih => exact ih (by simp) hlt
  case case3 i closer outer _ hn hc ih =>
    cases outer
    case nil =>
      rw [closeBlocks_nil]
      exact ⟨Buffer.not_isBlank_of_isChar hc, hn⟩
    case cons => exact ih (by simp) hlt
  case case4 ih => exact ih hne hlt
  case case5 ih => exact ih hne hlt
  case case6 hi => omega

theorem closed_block? {angle : Bool} (h : block? profile buf angle i = some j)
    (hlt : j < buf.size) : buf.isBlank (j - 1) = false ∧ opens? buf angle (j - 1) = none := by
  simp only [block?, Option.map_eq_some_iff] at h
  obtain ⟨c, -, rfl⟩ := h
  exact closed_closeBlocks (by simp) hlt

-- No block reaches from the last token of another one over its end.
theorem le_of_block?_last {angle : Bool} {m : Nat} (h : block? profile buf angle i = some j)
    (hm : block? profile buf angle (j - 1) = some m) : m ≤ j := by
  have hij := lt_block? profile buf h
  simp only [block?, Option.map_eq_some_iff] at hm
  obtain ⟨c, hc, rfl⟩ := hm
  by_cases hj : j < buf.size
  case pos => cases hc.symm.trans (closed_block? h hj).2
  case neg =>
    -- The block ends with the text, and nothing goes on behind that.
    rw [closeBlocks_end (by omega)]
    omega

-- Only a line comment does not end with a token of its own, but before a line break.
theorem not_isBlank_quoted? (hb : buf.WellFormed) (hp : profile.Separate)
    (h : quoted? profile buf i = some j) (hlt : j < buf.size) :
    buf.isBlank (j - 1) = false ∨ buf.isLineBreak j = true := by
  simp only [quoted?, comment?, Option.or_eq_some_iff, blockComment?, lineComment?,
    Option.map_eq_some_iff] at h
  rcases h with (⟨s, hs, rfl⟩ | ⟨-, s, hs, rfl⟩) | ⟨-, h⟩
  case inl.inl =>
    have hc : ∀ t ∈ [s.closer], IsSymbolic t := by
      simpa using isSymbolic_of_blockSymbols? hp hs
    exact .inl (not_isBlank_closeComments hb hp hc (by simp) hlt)
  case inl.inr => exact .inr (Buffer.of_seek_lt hlt)
  case inr =>
    unfold string? at h
    split at h
    case h_2 => cases h
    case h_1 =>
      split at h
      case isFalse => cases h
      case isTrue =>
        cases h
        exact .inl (not_isBlank_closeString hlt)

-- No construct but a line comment ends with a blank, so blanks at the end may be left out.
theorem Ends.of_blanks {p e : Nat} (hb : buf.WellFormed) (hp : profile.Separate)
    (h : Ends profile buf p j) (hj : j < buf.size) (hl : buf.isLineBreak j = false)
    (hblank : ∀ k, e ≤ k → k < j → buf.isBlank k = true) : Ends profile buf p e := by
  have hlast {k : Nat} (hk : k ≤ j) (hpk : p < k) (hn : buf.isBlank (k - 1) = false) : k ≤ e := by
    by_cases he : e ≤ k - 1
    case pos => simp [hblank (k - 1) he (by omega)] at hn
    case neg => omega
  refine ⟨fun k hk => ?quoted, fun angle k hk => ?block⟩
  case quoted =>
    have hkj := h.quoted k hk
    rcases not_isBlank_quoted? hb hp hk (by omega) with hn | hn
    case inl => exact hlast hkj (lt_quoted? profile buf hk) hn
    case inr =>
      by_cases hk' : k < e
      case pos => omega
      case neg =>
        rcases Nat.lt_or_eq_of_le hkj with hkj | rfl
        case inl =>
          obtain ⟨t, ht, hkind⟩ := Buffer.isBlank_iff.mp (hblank k (by omega) hkj)
          simp [Buffer.isLineBreak, Buffer.kind?, ht, hkind] at hn
        case inr => simp [hl] at hn
  case block =>
    have hkj := h.block angle k hk
    exact hlast hkj (lt_block? profile buf hk) (closed_block? hk (by omega)).1

end Skip
end SourceDocs

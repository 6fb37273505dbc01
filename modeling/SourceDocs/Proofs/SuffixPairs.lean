import SourceDocs.Proofs.ListCloser

namespace SourceDocs

def Role.isOfList : Role → Bool
  | startOfParameters | parameterSeparator | endOfParameters => true
  | _ => false

namespace Buffer

variable {buf : Buffer} {i k : Nat} {c : Char}

def isBracket (buf : Buffer) (i : Nat) : Bool :=
  match buf.symbol? i with
  | some c => (Text.closing? c).isSome || Text.isClosing c
  | none => false

def Matching (buf : Buffer) (i k : Nat) : Prop :=
  ∃ b c, buf.isChar i b = true ∧ Text.closing? b = some c ∧ buf.isChar k c = true

theorem isBracket_of_isChar (h : buf.isChar i c = true) :
    buf.isBracket i = ((Text.closing? c).isSome || Text.isClosing c) := by
  simp only [isChar, decide_eq_true_eq] at h
  simp [isBracket, h]

theorem not_isBracket_of_isBlank (h : buf.isBlank i = true) : buf.isBracket i = false := by
  have hs : buf.symbol? i = none := by
    obtain ⟨t, ht, hk⟩ := isBlank_iff.mp h
    simp [symbol?, isSymbol, kind?, ht, hk]
  simp [isBracket, hs]

theorem not_isBracket_of_isPointer (h : Skip.isPointer buf i = true) : buf.isBracket i = false := by
  unfold Skip.isPointer at h
  split at h
  case h_2 => cases h
  case h_1 c hc =>
    have hchar : buf.isChar i c = true := by simp [isChar, hc]
    rw [isBracket_of_isChar hchar]
    simp only [Bool.or_eq_true, decide_eq_true_eq] at h
    rcases h with (rfl | rfl) | rfl <;> rfl

theorem Matching.isBracket (h : buf.Matching i k) :
    buf.isBracket i = true ∧ buf.isBracket k = true := by
  obtain ⟨b, c, hi, hb, hk⟩ := h
  simp [isBracket_of_isChar hi, isBracket_of_isChar hk, hb, (Text.isClosing_of_closing? hb).1]

end Buffer

namespace Skip

variable {profile : Profile} {buf : Buffer} {i j k c : Nat} {closer : Char}

theorem isBracket_of_opens? {angle : Bool} (h : opens? buf angle i = some closer) :
    buf.isBracket i = true := by
  unfold opens? at h
  split at h
  case h_2 => cases h
  case h_1 c hc =>
    have hchar : buf.isChar i c = true := by simp [Buffer.isChar, hc]
    rw [Buffer.isBracket_of_isChar hchar]
    split at h
    case isTrue => cases h
    case isFalse => simp [h]

-- The bracket at `i` opens a block, angle brackets counted, which nothing closes.
structure Unclosed (profile : Profile) (buf : Buffer) (i : Nat) : Prop where
  isOpening : (opens? buf true i).isSome = true
  not_closed : ∀ c, ¬BlockCloses profile buf true i c

theorem Unclosed.isBracket (h : Unclosed profile buf i) : buf.isBracket i = true := by
  obtain ⟨c, hc⟩ := Option.isSome_iff_exists.mp h.isOpening
  exact isBracket_of_opens? hc

theorem Closes.isChar_last {closers : List Char} (h : Closes profile buf true i closers c) :
    ∀ last ∈ closers.getLast?, buf.isChar c last = true := by
  induction h
  case last hc => simpa using hc
  case inner hi => simpa [List.getLast?_cons_cons] using hi
  case opening hi => simpa [List.getLast?_cons_cons] using hi
  case quoted hi => exact hi
  case other hi => exact hi

theorem BlockCloses.matching (h : BlockCloses profile buf true i c) : buf.Matching i c := by
  obtain ⟨closer, ho, hc⟩ := h
  unfold opens? at ho
  split at ho
  case h_2 => cases ho
  case h_1 b hb =>
    refine ⟨b, closer, by simpa [Buffer.isChar] using hb, by simpa using ho, ?_⟩
    exact hc.isChar_last closer (by simp)

-- Only a block that ends with the text may be unclosed.
theorem blockCloses_or_unclosed (h : block? profile buf true i = some j) (hj : j ≤ buf.size) :
    i + 1 < j ∧ BlockCloses profile buf true i (j - 1) ∨
      j = buf.size ∧ Unclosed profile buf i := by
  by_cases hc : ∃ c, BlockCloses profile buf true i c
  case pos =>
    obtain ⟨c, hc⟩ := hc
    obtain rfl := Option.some.inj (h.symm.trans hc.block?_eq)
    obtain ⟨closer, ho, hclose⟩ := hc
    have := hclose.bounds
    exact .inl ⟨by omega, closer, ho, hclose⟩
  case neg =>
    have hlt := lt_block? profile buf h
    have hopens : (opens? buf true i).isSome = true := by
      rw [block?, Option.map_eq_some_iff] at h
      obtain ⟨c, hc, -⟩ := h
      simp [hc]
    refine .inr ⟨?_, hopens, fun c hc' => hc ⟨c, hc'⟩⟩
    by_contra hne
    refine hc ⟨j - 1, blockCloses_of_lt ?_ ?_⟩
    · rw [h, Nat.sub_add_cancel (by omega)]
    · omega

end Skip

namespace Roles

variable {profile : Profile} {buf : Buffer} {i j k m i' j' : Nat} {r r' r'' : Roles}

@[simp]
theorem set_set (roles : Roles) (i : Nat) (role role' : Option Role) :
    (roles.set i role).set i role' = roles.set i role' := by
  simp [set]

inductive SuffixPair : Option Role → Option Role → Prop
  | type : SuffixPair (some .openingTypeSuffix) (some .closingTypeSuffix)
  | name : SuffixPair (some .openingNameSuffix) (some .closingNameSuffix)

-- From `i` up to, and without, `j` the brackets behind types and names are matching brackets in
-- nested pairs.
inductive Nested (buf : Buffer) (roles : Roles) : Nat → Nat → Prop
  | nil (i : Nat) : Nested buf roles i i
  | other {i j : Nat} (hr : (roles.get i).any Role.isSuffixBracket = false)
    (h : Nested buf roles (i + 1) j) : Nested buf roles i j
  | pair {i k j : Nat} (hr : SuffixPair (roles.get i) (roles.get k)) (hm : buf.Matching i k)
    (hi : Nested buf roles (i + 1) k) (h : Nested buf roles (k + 1) j) : Nested buf roles i j

def Unmarked (roles : Roles) (i j : Nat) : Prop :=
  ∀ k, i ≤ k → k < j → (roles.get k).any Role.isSuffixBracket = false

-- A bracket keeps its role, and another token gets no role of a bracket behind a type or name.
def Kept (buf : Buffer) (r r' : Roles) (k : Nat) : Prop :=
  r'.get k = r.get k ∨
    buf.isBracket k = false ∧ (r'.get k).any Role.isSuffixBracket = false

theorem SuffixPair.isSuffixBracket {x y : Option Role} (h : SuffixPair x y) :
    x.any Role.isSuffixBracket = true ∧ y.any Role.isSuffixBracket = true := by
  cases h <;> exact ⟨rfl, rfl⟩

theorem Kept.trans (h : Kept buf r r' k) (h' : Kept buf r' r'' k) : Kept buf r r'' k := by
  rcases h' with h' | h'
  case inl => simpa only [Kept, h'] using h
  case inr => exact .inr h'

theorem Kept.eq_of_isBracket (h : Kept buf r r' k) (hk : buf.isBracket k = true) :
    r'.get k = r.get k :=
  h.resolve_right fun h => by simp [h.1] at hk

theorem Kept.not_suffix (h : Kept buf r r' k) (hr : (r.get k).any Role.isSuffixBracket = false) :
    (r'.get k).any Role.isSuffixBracket = false :=
  h.elim (fun h => h ▸ hr) (·.2)

theorem Unmarked.nested (h : Unmarked r i j) (hij : i ≤ j) : Nested buf r i j := by
  obtain ⟨n, rfl⟩ := Nat.exists_eq_add_of_le hij
  induction n generalizing i
  case zero => exact .nil i
  case succ n hi =>
    refine .other (h i (Nat.le_refl _) (by omega)) ?_
    have hrest := @hi (i + 1) (fun k hk hk' => h k (by omega) (by omega)) (by omega)
    exact (show i + 1 + n = i + (n + 1) by omega) ▸ hrest

namespace Nested

theorem le (h : Nested buf r i j) : i ≤ j := by
  induction h <;> omega

theorem append (h : Nested buf r i m) (h' : Nested buf r m j) : Nested buf r i j := by
  induction h
  case nil => exact h'
  case other hr _ hi => exact .other hr (hi h')
  case pair hr hm hin _ _ hi => exact .pair hr hm hin (hi h')

theorem congr (h : Nested buf r i j) (hk : ∀ k, i ≤ k → k < j → Kept buf r r' k) :
    Nested buf r' i j := by
  induction h
  case nil i => exact .nil i
  case other i j hr h hi =>
    have := h.le
    exact .other ((hk i (Nat.le_refl _) (by omega)).not_suffix hr)
      (hi fun k hik => hk k (by omega))
  case pair i k j hr hm hin h hi hi' =>
    have := hin.le
    have := h.le
    refine .pair ?_ hm (hi fun m him hmk => hk m (by omega) (by omega))
      (hi' fun m hkm => hk m (by omega))
    rwa [(hk i (Nat.le_refl _) (by omega)).eq_of_isBracket hm.isBracket.1,
      (hk k (by omega) (by omega)).eq_of_isBracket hm.isBracket.2]

end Nested

-- The bracket at `k` opens a block behind a type or a name that the end of the text cuts off. The
-- brackets from `i` on before it and in it are in nested pairs; the last token is taken for its
-- closing bracket.
structure Dangling (profile : Profile) (buf : Buffer) (roles : Roles) (i k : Nat) : Prop where
  role : (roles.get k).any Role.isSuffixBracket = true
  unclosed : Skip.Unclosed profile buf k
  before : Nested buf roles i k
  inside : k + 1 < buf.size → Nested buf roles (k + 1) (buf.size - 1)
  last : k + 1 < buf.size → SuffixPair (roles.get k) (roles.get (buf.size - 1)) ∨
    (roles.get (buf.size - 1)).any Role.isSuffixBracket = false

def Sound (profile : Profile) (buf : Buffer) (roles : Roles) (i j : Nat) : Prop :=
  Nested buf roles i j ∨ j = buf.size ∧ ∃ k, Dangling profile buf roles i k

theorem Dangling.lt_size (h : Dangling profile buf r i k) : k < buf.size := by
  obtain ⟨c, hc⟩ := Option.isSome_iff_exists.mp h.unclosed.isOpening
  obtain ⟨b, -, hb, -⟩ := Skip.exists_of_opens? hc
  exact buf.lt_size_of_isChar hb

namespace Sound

theorem nested (h : Sound profile buf r i j) (hj : j < buf.size) : Nested buf r i j :=
  h.resolve_right fun h => by omega

theorem congr (h : Sound profile buf r i j) (hk : ∀ k, i ≤ k → k < j → Kept buf r r' k) :
    Sound profile buf r' i j := by
  rcases h with h | ⟨rfl, k, h⟩
  case inl => exact .inl (h.congr hk)
  case inr =>
    have hik := h.before.le
    have hlt := h.lt_size
    have hget := (hk k hik hlt).eq_of_isBracket h.unclosed.isBracket
    refine .inr ⟨rfl, k, ?role, h.unclosed, h.before.congr fun m hm _ => hk m hm (by omega),
      fun hlt => (h.inside hlt).congr fun m hm _ => hk m (by omega) (by omega), fun hlt => ?last⟩
    case role => rw [hget, h.role]
    case last =>
      rcases hk (buf.size - 1) (by omega) (by omega) with hlast | hlast
      case inl => simpa only [hget, hlast] using h.last hlt
      case inr => exact .inr hlast.2

theorem append (h : Sound profile buf r i m) (h' : Sound profile buf r m j) (hj : j ≤ buf.size)
    (hmj : m ≤ j) : Sound profile buf r i j := by
  rcases h with h | ⟨rfl, h⟩
  case inr =>
    obtain rfl : j = buf.size := by omega
    exact .inr ⟨rfl, h⟩
  case inl =>
    rcases h' with h' | ⟨rfl, k, h'⟩
    case inl => exact .inl (h.append h')
    case inr =>
      exact .inr ⟨rfl, k, h'.role, h'.unclosed, h.append h'.before, h'.inside, h'.last⟩

end Sound

-- What may change when the tokens from `i` up to, and without, `j` are marked. Two colons and the
-- sign of a default value may reach over the end.
structure Spares (buf : Buffer) (i j : Nat) (r r' : Roles) : Prop where
  size_eq : r'.slots.size = r.slots.size
  kept : ∀ k, k < i ∨ j ≤ k → Kept buf r r' k
  no_list : ∀ k, r'.get k = r.get k ∨ (r'.get k).any Role.isOfList = false

-- As `Spares`, and no token gets the role of a bracket behind a type or a name.
structure Plain (buf : Buffer) (i j : Nat) (r r' : Roles) : Prop extends Spares buf i j r r' where
  no_suffix : ∀ k, r'.get k = r.get k ∨ (r'.get k).any Role.isSuffixBracket = false

-- As `Spares`, and the brackets that are marked in a part without such marks are sound.
structure Marks (profile : Profile) (buf : Buffer) (i j : Nat) (r r' : Roles) : Prop
    extends Spares buf i j r r' where
  sound : r.slots.size = buf.size → Unmarked r i j → Sound profile buf r' i j

namespace Spares

theorem refl (buf : Buffer) (i j : Nat) (r : Roles) : Spares buf i j r r :=
  ⟨rfl, fun _ _ => .inl rfl, fun _ => .inl rfl⟩

theorem trans (h : Spares buf i j r r') (h' : Spares buf i j r' r'') : Spares buf i j r r'' where
  size_eq := h'.size_eq.trans h.size_eq
  kept k hk := (h.kept k hk).trans (h'.kept k hk)
  no_list k := by
    rcases h'.no_list k with hk | hk
    case inl => exact hk ▸ h.no_list k
    case inr => exact .inr hk

theorem mono (h : Spares buf i j r r') (hi : i' ≤ i) (hj : j ≤ j') : Spares buf i' j' r r' where
  size_eq := h.size_eq
  kept k hk := h.kept k (by omega)
  no_list := h.no_list

theorem set (h : Spares buf i j r r') {role : Option Role} (hik : i ≤ k) (hkj : k < j)
    (hl : role.any Role.isOfList = false := by rfl) : Spares buf i j r (r'.set k role) := by
  refine ⟨by simpa using h.size_eq, fun m hm => ?kept, fun m => ?no_list⟩
  case kept =>
    rw [Kept, get_set, if_neg (by omega)]
    exact h.kept m hm
  case no_list =>
    rw [get_set]
    split
    case isTrue => exact .inr hl
    case isFalse => exact h.no_list m

-- What is unmarked elsewhere stays so.
theorem unmarked (h : Spares buf i j r r') (hu : Unmarked r i' j') (hd : j' ≤ i ∨ j ≤ i') :
    Unmarked r' i' j' :=
  fun k hk hk' => (h.kept k (by omega)).not_suffix (hu k hk hk')

theorem sound (h : Spares buf i j r r') (hs : Sound profile buf r i' j') (hd : j' ≤ i ∨ j ≤ i') :
    Sound profile buf r' i' j' :=
  hs.congr fun k _ _ => h.kept k (by omega)

end Spares

namespace Plain

theorem refl (buf : Buffer) (i j : Nat) (r : Roles) : Plain buf i j r r :=
  ⟨.refl .., fun _ => .inl rfl⟩

theorem trans (h : Plain buf i j r r') (h' : Plain buf i j r' r'') : Plain buf i j r r'' where
  toSpares := h.toSpares.trans h'.toSpares
  no_suffix k := by
    rcases h'.no_suffix k with hk | hk
    case inl => exact hk ▸ h.no_suffix k
    case inr => exact .inr hk

theorem mono (h : Plain buf i j r r') (hi : i' ≤ i) (hj : j ≤ j') : Plain buf i' j' r r' :=
  ⟨h.toSpares.mono hi hj, h.no_suffix⟩

-- It is enough to know for each token that it keeps its role or gets one that may be marked there.
theorem of_get (hn : r'.slots.size = r.slots.size)
    (h : ∀ k, r'.get k = r.get k ∨ (i ≤ k ∧ k < j ∨ buf.isBracket k = false) ∧
      (r'.get k).any Role.isSuffixBracket = false ∧ (r'.get k).any Role.isOfList = false) :
    Plain buf i j r r' where
  size_eq := hn
  kept k hk := (h k).imp_right fun ⟨hin, hs, _⟩ => ⟨hin.resolve_left (by omega), hs⟩
  no_list k := (h k).imp_right fun ⟨_, _, hl⟩ => hl
  no_suffix k := (h k).imp_right fun ⟨_, hs, _⟩ => hs

theorem set (h : Plain buf i j r r') {role : Option Role}
    (hk : i ≤ k ∧ k < j ∨ buf.isBracket k = false)
    (hs : role.any Role.isSuffixBracket = false := by rfl)
    (hl : role.any Role.isOfList = false := by rfl) : Plain buf i j r (r'.set k role) := by
  refine h.trans (of_get (by simp) fun m => ?_)
  rw [get_set]
  split
  case isTrue hm => exact .inr ⟨hm.1 ▸ hk, hs, hl⟩
  case isFalse => exact .inl rfl

theorem setRange (h : Plain buf i j r r') {role : Option Role} {a b : Nat}
    (hk : ∀ k, a ≤ k → k < b → i ≤ k ∧ k < j ∨ buf.isBracket k = false)
    (hs : role.any Role.isSuffixBracket = false := by rfl)
    (hl : role.any Role.isOfList = false := by rfl) :
    Plain buf i j r (r'.setRange a b role) := by
  refine h.trans (of_get (by simp) fun m => ?_)
  rw [get_setRange]
  split
  case isTrue hm => exact .inr ⟨hk m hm.1 hm.2.1, hs, hl⟩
  case isFalse => exact .inl rfl

theorem foldl {α : Type} {f : Roles → α → Roles} {xs : List α}
    (h : ∀ r, ∀ x ∈ xs, Plain buf i j r (f r x)) (r : Roles) : Plain buf i j r (xs.foldl f r) := by
  induction xs generalizing r
  case nil => exact .refl ..
  case cons x xs hi => exact .trans (h r x (.head _)) (hi (fun r y hy => h r y (.tail _ hy)) _)

theorem unmarked (h : Plain buf i j r r') (hu : Unmarked r i' j') : Unmarked r' i' j' := by
  intro k hk hk'
  rcases h.no_suffix k with h | h
  case inl => exact h ▸ hu k hk hk'
  case inr => exact h

theorem marks (h : Plain buf i j r r') (hij : i ≤ j) : Marks profile buf i j r r' :=
  ⟨h.toSpares, fun _ hu => .inl ((h.unmarked hu).nested hij)⟩

end Plain

namespace Marks

theorem refl (hij : i ≤ j) : Marks profile buf i j r r :=
  (Plain.refl ..).marks hij

theorem after_plain (h : Plain buf i j r r') (h' : Marks profile buf i j r' r'') :
    Marks profile buf i j r r'' :=
  ⟨h.toSpares.trans h'.toSpares, fun hs hu => h'.sound (h.size_eq.trans hs) (h.unmarked hu)⟩

-- What is marked afterwards is no bracket.
theorem then_plain (h : Marks profile buf i j r r') (h' : Plain buf j j r' r'') (hij : i ≤ j) :
    Marks profile buf i j r r'' :=
  ⟨h.toSpares.trans (h'.toSpares.mono hij (Nat.le_refl _)),
    fun hs hu => (h.sound hs hu).congr fun k _ _ => h'.kept k (by omega)⟩

section Append

variable (him : i ≤ m) (hmj : m ≤ j) (hj : j ≤ buf.size)

include him hmj hj

theorem append (h : Marks profile buf i m r r') (h' : Marks profile buf m j r' r'') :
    Marks profile buf i j r r'' where
  toSpares := (h.toSpares.mono (Nat.le_refl _) hmj).trans (h'.toSpares.mono him (Nat.le_refl _))
  sound hs hu := by
    have hleft : Sound profile buf r' i m := h.sound hs fun k hk hk' => hu k hk (by omega)
    have hright : Unmarked r' m j :=
      h.unmarked (fun k hk hk' => hu k (by omega) hk') (.inr (Nat.le_refl _))
    exact (h'.toSpares.sound hleft (.inl (Nat.le_refl _))).append
      (h'.sound (h.size_eq.trans hs) hright) hj hmj

theorem prepend (h : Marks profile buf m j r r') (h' : Marks profile buf i m r' r'') :
    Marks profile buf i j r r'' where
  toSpares := (h.toSpares.mono him (Nat.le_refl _)).trans (h'.toSpares.mono (Nat.le_refl _) hmj)
  sound hs hu := by
    have hright : Sound profile buf r' m j := h.sound hs fun k hk hk' => hu k (by omega) hk'
    have hleft : Unmarked r' i m :=
      h.unmarked (fun k hk hk' => hu k hk (by omega)) (.inl (Nat.le_refl _))
    exact (h'.sound (h.size_eq.trans hs) hleft).append
      (h'.toSpares.sound hright (.inr (Nat.le_refl _))) hj hmj

end Append

theorem mono (h : Marks profile buf i j r r') (hi : i' ≤ i) (hij : i ≤ j) (hj : j ≤ j')
    (hj' : j' ≤ buf.size) : Marks profile buf i' j' r r' :=
  .append (by omega) hj hj' (.append hi hij (by omega) (.refl hi) h) (.refl hj)

-- Parts that follow each other may be marked in their order.
theorem foldl {α : Type} {f : Roles → α → Roles} {xs : List α} (first last : α → Nat)
    (h : ∀ r, ∀ x ∈ xs, Marks profile buf (first x) (last x) r (f r x))
    (hb : ∀ x ∈ xs, i ≤ first x ∧ first x ≤ last x ∧ last x ≤ j)
    (hp : xs.Pairwise (last · ≤ first ·)) (hij : i ≤ j) (hj : j ≤ buf.size) (r : Roles) :
    Marks profile buf i j r (xs.foldl f r) := by
  induction xs generalizing i r
  case nil => exact .refl hij
  case cons x xs hi =>
    have hx := hb x (.head _)
    rw [List.pairwise_cons] at hp
    have hfirst : Marks profile buf i (last x) r (f r x) :=
      (h r x (.head _)).mono hx.1 hx.2.1 (Nat.le_refl _) (by omega)
    refine hfirst.append (by omega) (by omega) hj ?_
    refine hi (fun r y hy => h r y (.tail _ hy)) (fun y hy => ?_) hp.2 (by omega) _
    have := hb y (.tail _ hy)
    have := hp.1 y hy
    omega

section Block

variable {x y : Role} (hp : SuffixPair (some x) (some y))
  (hb : Skip.block? profile buf true i = some j) (hj : j ≤ buf.size)

include hp hb hj

theorem block (hlt : i + 1 < j)
    (h : Marks profile buf (i + 1) (j - 1) ((r.set i (some x)).set (j - 1) (some y)) r') :
    Marks profile buf i j r r' where
  toSpares := by
    have hl : (some x).any Role.isOfList = false ∧ (some y).any Role.isOfList = false := by
      cases hp <;> exact ⟨rfl, rfl⟩
    refine .trans ?_ (h.toSpares.mono (by omega) (by omega))
    exact (Spares.refl ..).set (by omega) (by omega) hl.1 |>.set (by omega) (by omega) hl.2
  sound hs hu := by
    have hget (k : Nat) : ((r.set i (some x)).set (j - 1) (some y)).get k =
        if k = j - 1 ∧ k < buf.size then some y else if k = i ∧ k < buf.size then some x
          else r.get k := by
      simp only [get_set, size_set, hs]
    have hinside : Sound profile buf r' (i + 1) (j - 1) := by
      refine h.sound (by simpa using hs) fun k hk hk' => ?_
      rw [hget, if_neg (by omega), if_neg (by omega)]
      exact hu k (by omega) (by omega)
    have hinside := hinside.nested (by omega)
    have hopen := h.kept i (by omega)
    have hclose := h.kept (j - 1) (by omega)
    rw [Kept, hget, if_neg (by omega), if_pos (by omega)] at hopen
    rw [Kept, hget, if_pos (by omega)] at hclose
    rcases Skip.blockCloses_or_unclosed hb hj with ⟨-, hc⟩ | ⟨rfl, hc⟩
    case inl =>
      have hm := hc.matching
      have hopen := hopen.resolve_right fun h => by simp [hm.isBracket.1] at h
      have hclose := hclose.resolve_right fun h => by simp [hm.isBracket.2] at h
      refine .inl (.pair (k := j - 1) (hopen ▸ hclose ▸ hp) hm hinside ?_)
      rw [Nat.sub_add_cancel (by omega)]
      exact .nil j
    case inr =>
      have hopen := hopen.resolve_right fun h => by simp [hc.isBracket] at h
      refine .inr ⟨rfl, i, ?role, hc, .nil i, fun _ => hinside, fun _ => ?last⟩
      case role => rw [hopen, hp.isSuffixBracket.1]
      case last =>
        rw [hopen]
        refine hclose.imp (fun hclose => ?_) (·.2)
        rwa [hclose]

-- The last token opens a block, and there is none left that could close it.
theorem last_block (hlt : ¬i + 1 < j) {z : Role} (hz : z = x ∨ z = y) :
    Marks profile buf i j r (r.set i (some z)) where
  toSpares := by
    have := Skip.lt_block? profile buf hb
    refine (Spares.refl ..).set (Nat.le_refl _) this ?_
    rcases hz with rfl | rfl <;> cases hp <;> rfl
  sound hs _ := by
    have hij := Skip.lt_block? profile buf hb
    obtain ⟨rfl, hc⟩ := (Skip.blockCloses_or_unclosed hb hj).resolve_left fun h => hlt h.1
    refine .inr ⟨rfl, i, ?_, hc, .nil i, fun h => absurd h hlt, fun h => absurd h hlt⟩
    rw [get_set, if_pos ⟨rfl, hs ▸ hij⟩]
    rcases hz with rfl | rfl
    case inl => exact hp.isSuffixBracket.1
    case inr => exact hp.isSuffixBracket.2

end Block

end Marks
end Roles
end SourceDocs

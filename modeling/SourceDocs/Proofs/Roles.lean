import SourceDocs.Proofs.Nesting
import SourceDocs.Prototype.Mark

namespace SourceDocs

def Role.isSuffixBracket : Role → Bool
  | openingTypeSuffix | closingTypeSuffix | openingNameSuffix | closingNameSuffix => true
  | _ => false

namespace Roles

variable (roles : Roles) (role : Option Role)

@[simp]
theorem size_set (i : Nat) : (roles.set i role).slots.size = roles.slots.size := by
  simp [set]

theorem get_set (i k : Nat) :
    (roles.set i role).get k = if k = i ∧ k < roles.slots.size then role else roles.get k := by
  simp only [set, get, Array.getElem?_setIfInBounds]
  by_cases hk : i = k
  case pos =>
    subst hk
    by_cases hs : i < roles.slots.size <;> simp [hs]
  case neg => simp [hk, Ne.symm hk]

@[simp]
theorem size_setRange (i j : Nat) : (roles.setRange i j role).slots.size = roles.slots.size := by
  fun_induction setRange roles i j role
  case case1 hi => simpa using hi
  case case2 => rfl

theorem get_setRange (i j k : Nat) :
    (roles.setRange i j role).get k =
      if i ≤ k ∧ k < j ∧ k < roles.slots.size then role else roles.get k := by
  fun_induction setRange roles i j role
  case case1 roles i h hi =>
    rw [hi, get_set, size_set]
    by_cases hk : k = i
    case pos => simp [hk, show ¬i + 1 ≤ i by omega, show i < j ∧ i < roles.slots.size by omega]
    case neg => simp [hk, show i + 1 ≤ k ↔ i ≤ k by omega]
  case case2 roles i h =>
    rw [if_neg]
    omega

@[simp]
theorem setRange_self (i : Nat) : roles.setRange i i role = roles := by
  rw [setRange, if_neg (by omega)]

-- What may be marked at `k` when the marks end at `j`: not the end of a parameter list, and no
-- bracket behind a name or a type that opens a block beyond `j`.
def Admits (profile : Profile) (buf : Buffer) (j k : Nat) (role : Option Role) : Prop :=
  role ≠ some .endOfParameters ∧ (role.any Role.isSuffixBracket = true →
    ∀ m, Skip.block? profile buf true k = some m → m ≤ j)

-- The two tables agree outside the positions from `i` up to, and without, `j`, and where they
-- differ, the second one has a role that may be marked there.
structure SameOutside (profile : Profile) (buf : Buffer) (i j : Nat) (r r' : Roles) : Prop where
  size_eq : r'.slots.size = r.slots.size
  get_eq : ∀ k, k < i ∨ j ≤ k → r'.get k = r.get k
  admits : ∀ k, r'.get k = r.get k ∨ Admits profile buf j k (r'.get k)

namespace SameOutside

variable {profile : Profile} {buf : Buffer} {i j : Nat} {r r' r'' : Roles}

theorem refl (i j : Nat) (r : Roles) : SameOutside profile buf i j r r :=
  ⟨rfl, fun _ _ => rfl, fun _ => .inl rfl⟩

theorem trans (h : SameOutside profile buf i j r r') (h' : SameOutside profile buf i j r' r'') :
    SameOutside profile buf i j r r'' where
  size_eq := h'.size_eq.trans h.size_eq
  get_eq k hk := (h'.get_eq k hk).trans (h.get_eq k hk)
  admits k := by
    rcases h'.admits k with hk | hk
    case inl => exact hk ▸ h.admits k
    case inr => exact .inr hk

theorem mono {i' j' : Nat} (h : SameOutside profile buf i j r r') (hi : i' ≤ i) (hj : j ≤ j') :
    SameOutside profile buf i' j' r r' where
  size_eq := h.size_eq
  get_eq k hk := h.get_eq k (by omega)
  admits k := (h.admits k).imp_right fun hk => ⟨hk.1, fun hs m hm => (hk.2 hs m hm).trans hj⟩

theorem set (h : SameOutside profile buf i j r r') {k : Nat} {role : Option Role} (hi : i ≤ k)
    (hj : k < j) (ha : Admits profile buf j k role := by simp [Admits, Role.isSuffixBracket]) :
    SameOutside profile buf i j r (r'.set k role) := by
  refine ⟨by simpa using h.size_eq, fun m hm => ?get_eq, fun m => ?admits⟩
  case get_eq => rw [get_set, if_neg (by omega), h.get_eq m hm]
  case admits =>
    rw [get_set]
    split
    case isTrue hm => exact .inr (hm.1 ▸ ha)
    case isFalse => exact h.admits m

theorem setRange (h : SameOutside profile buf i j r r') {a b : Nat} {role : Option Role}
    (hi : i ≤ a) (hj : b ≤ j)
    (ha : ∀ k, Admits profile buf j k role := by simp [Admits, Role.isSuffixBracket]) :
    SameOutside profile buf i j r (r'.setRange a b role) := by
  refine ⟨by simpa using h.size_eq, fun m hm => ?get_eq, fun m => ?admits⟩
  case get_eq => rw [get_setRange, if_neg (by omega), h.get_eq m hm]
  case admits =>
    rw [get_setRange]
    split
    case isTrue => exact .inr (ha m)
    case isFalse => exact h.admits m

theorem foldl {α : Type} {f : Roles → α → Roles} {xs : List α}
    (h : ∀ r, ∀ x ∈ xs, SameOutside profile buf i j r (f r x)) (r : Roles) :
    SameOutside profile buf i j r (xs.foldl f r) := by
  induction xs generalizing r
  case nil => exact .refl i j r
  case cons x xs hi =>
    exact .trans (h r x (.head _)) (hi (fun r y hy => h r y (.tail _ hy)) _)

-- Marking does not end a list.
theorem no_end (h : SameOutside profile buf i j r r') {k : Nat}
    (hk : r'.get k = some .endOfParameters) : r.get k = some .endOfParameters := by
  rcases h.admits k with h | h
  case inl => exact h ▸ hk
  case inr => exact absurd hk h.1

end SameOutside
end Roles

namespace Word

variable {profile : Profile} {buf : Buffer} {halt : Nat → Bool} {limit i : Nat} {w : Word}

theorem read_word (hi : i < limit) (hh : halt i = false) (h : at? profile buf limit i = some w) :
    read profile buf halt limit i =
      (w :: (read profile buf halt limit w.stop).1, (read profile buf halt limit w.stop).2) := by
  rw [read, if_pos hi, if_neg (by simp [hh])]
  split
  case h_1 _ h' => cases h.symm.trans h'; rfl
  case h_2 h' => cases h.symm.trans h'

theorem read_other (hi : i < limit) (hh : halt i = false) (h : at? profile buf limit i = none) :
    read profile buf halt limit i = read profile buf halt limit (i + 1) := by
  rw [read, if_pos hi, if_neg (by simp [hh])]
  split
  case h_1 _ h' => cases h.symm.trans h'
  case h_2 => rfl

theorem read_halt (hi : i < limit) (hh : halt i = true) :
    read profile buf halt limit i = ([], i) := by
  rw [read, if_pos hi, if_pos hh]

theorem read_end (hi : ¬i < limit) : read profile buf halt limit i = ([], i) := by
  rw [read, if_neg hi]

theorem start_lt_stop_of_mem_read (hw : w ∈ (read profile buf halt limit i).1) :
    w.start < w.stop := by
  fun_induction read profile buf halt limit i
  case case2 i hi _ v h rest ih =>
    cases hw
    case head => exact start_of_at? profile buf h ▸ lt_stop_of_at? profile buf hi h
    case tail hw => exact ih hw
  case case3 ih => exact ih hw
  all_goals simp at hw

theorem within_of_mem_read (hw : w ∈ (read profile buf halt limit i).1) :
    i ≤ w.start ∧ w.start < w.stop ∧ w.stop ≤ limit :=
  have hbw := bounds_of_mem_read profile buf hw
  ⟨hbw.1, start_lt_stop_of_mem_read hw, hbw.2⟩

theorem stop_le_of_mem_read (hw : w ∈ (read profile buf halt limit i).1) :
    w.stop ≤ (read profile buf halt limit i).2 := by
  fun_induction read profile buf halt limit i
  case case2 ih =>
    cases hw
    case head => exact le_read ..
    case tail hw => exact ih hw
  case case3 ih => exact ih hw
  all_goals simp at hw

theorem pairwise_read :
    (read profile buf halt limit i).1.Pairwise (·.stop ≤ ·.start) := by
  fun_induction read profile buf halt limit i
  case case2 ih =>
    exact .cons (fun w hw => (bounds_of_mem_read profile buf hw).1) ih
  case case3 ih => exact ih
  all_goals exact .nil

theorem halt_of_read_lt (h : (read profile buf halt limit i).2 < limit) :
    halt (read profile buf halt limit i).2 = true := by
  fun_induction read profile buf halt limit i
  case case1 hh => exact hh
  case case2 ih => exact ih h
  case case3 ih => exact ih h
  case case4 hi => exact absurd h hi

end Word

namespace Prototype

open Roles

variable (profile : Profile) {buf : Buffer} {roles : Roles} {start stop bound i : Nat}

-- What is read up to `stop` ends at `bound` at the latest. Two colons may reach over the end.
def Within (buf : Buffer) (stop bound : Nat) : Prop :=
  stop < bound ∨ stop = bound ∧ buf.isChar bound ':' = false

theorem Within.le (h : Within buf stop bound) : stop ≤ bound := by
  unfold Within at h
  omega

theorem Within.of_le {stop' : Nat} (h : Within buf stop bound) (hle : stop' ≤ stop) :
    Within buf stop' bound := by
  obtain h | ⟨rfl, h⟩ := h
  case inl => exact .inl (by omega)
  case inr =>
    by_cases he : stop' = stop
    case pos => exact .inr ⟨he, h⟩
    case neg => exact .inl (by omega)

-- The second of two colons before the end is not the one that is excluded at the bound.
theorem Within.add_two_le (h : Within buf stop bound) (hb : buf.WellFormed) (hi : i < stop)
    (hm : buf.matchesAt i "::" = true) : i + 2 ≤ bound := by
  rw [Buffer.matchesAt_doubleColon hb, Bool.and_eq_true] at hm
  obtain h | ⟨rfl, h⟩ := h
  case inl => omega
  case inr =>
    by_contra hlt
    obtain rfl : i + 1 = stop := by omega
    simp [hm.2] at h

theorem le_qualifiedEnd (buf : Buffer) (stop i : Nat) : i ≤ qualifiedEnd buf stop i := by
  fun_induction qualifiedEnd buf stop i <;> omega

theorem qualifiedEnd_le (h : Within buf stop bound) (hb : buf.WellFormed) (hi : i ≤ bound) :
    qualifiedEnd buf stop i ≤ bound := by
  have := h.le
  fun_induction qualifiedEnd buf stop i
  case case1 ih => exact ih (by omega)
  case case2 hlt _ hm ih => exact ih (h.add_two_le hb hlt hm)
  all_goals exact hi

theorem typeEnds_le {q : Nat} (hq : q ≤ i) :
    q ≤ (typeEnds buf stop q i).1 ∧ (typeEnds buf stop q i).1 ≤ (typeEnds buf stop q i).2 := by
  fun_induction typeEnds buf stop q i
  case case1 ih =>
    have := ih (Nat.le_refl _)
    omega
  case case2 ih =>
    have := ih (Nat.le_refl _)
    omega
  case case3 ih => exact ih (by omega)
  all_goals exact ⟨Nat.le_refl _, hq⟩

theorem sameOutside_markModifier (w : Word) (hw : w.start < w.stop) :
    SameOutside profile buf w.start w.stop roles (markModifier roles w) := by
  unfold markModifier
  split
  case isTrue => exact (SameOutside.refl ..).set (by omega) (by omega) |>.set (by omega) (by omega)
  case isFalse => exact (SameOutside.refl ..).setRange (by omega) (by omega)

theorem markNameSuffix_block {j : Nat} (hi : i < stop)
    (h : (Skip.block? profile buf true i).filter (· ≤ stop) = some j) :
    markNameSuffix profile buf roles stop i =
      markNameSuffix profile buf
        ((roles.set i (some .openingNameSuffix)).set (j - 1) (some .closingNameSuffix)) stop j := by
  rw [markNameSuffix, if_pos hi]
  split
  case h_1 _ h' =>
    cases h.symm.trans h'
    rfl
  case h_2 h' => cases h.symm.trans h'

theorem markNameSuffix_other (hi : i < stop)
    (h : (Skip.block? profile buf true i).filter (· ≤ stop) = none) :
    markNameSuffix profile buf roles stop i =
      markNameSuffix profile buf
        (if buf.isBlank i then roles else roles.set i (some .nameSuffix)) stop (i + 1) := by
  rw [markNameSuffix, if_pos hi]
  split
  case h_1 _ h' => cases h.symm.trans h'
  case h_2 => rfl

section Block

variable {profile} {j : Nat} {role : Option Role} (he : role ≠ some .endOfParameters)
  (h : (Skip.block? profile buf true i).filter (· ≤ stop) = some j)

include he h

theorem admits_opening : Admits profile buf stop i role := by
  obtain ⟨hj, hs⟩ := Option.filter_eq_some_iff.mp h
  exact ⟨he, fun _ m hm => Option.some.inj (hj.symm.trans hm) ▸ of_decide_eq_true hs⟩

theorem admits_closing : Admits profile buf stop (j - 1) role := by
  obtain ⟨hj, hs⟩ := Option.filter_eq_some_iff.mp h
  exact ⟨he, fun _ m hm => (Skip.le_of_block?_last hj hm).trans (of_decide_eq_true hs)⟩

end Block

theorem sameOutside_markNameSuffix :
    SameOutside profile buf i stop roles (markNameSuffix profile buf roles stop i) := by
  fun_induction markNameSuffix profile buf roles stop i
  case case1 hi j h _ ih =>
    obtain ⟨hj, hs⟩ := Option.filter_eq_some_iff.mp h
    have := Skip.lt_block? profile buf hj
    simp only [decide_eq_true_eq] at hs
    refine .trans ?_ (ih.mono (by omega) (by omega))
    exact (SameOutside.refl ..).set (by omega) (by omega) (admits_opening (by simp) h)
      |>.set (by omega) (by omega) (admits_closing (by simp) h)
  case case2 hi _ roles ih =>
    refine .trans ?_ (ih.mono (by omega) (by omega))
    simp only [roles]
    split
    · exact .refl ..
    · exact (SameOutside.refl ..).set (by omega) (by omega)
  case case3 => exact .refl ..

theorem sameOutside_markName (hb : buf.WellFormed) {w : Word} (hw : w.start < w.stop)
    (h : Within buf w.stop bound) :
    SameOutside profile buf w.start bound roles (markName profile buf roles w) := by
  unfold markName
  have h₁ := Buffer.le_seek (isIdentifier buf) w.start w.stop
  have h₂ := Buffer.seek_le (isIdentifier buf) (Nat.le_of_lt hw)
  have h₃ := le_qualifiedEnd buf w.stop (Buffer.seek (isIdentifier buf) w.start w.stop)
  have h₄ := qualifiedEnd_le h hb (h₂.trans h.le)
  have hs := h.le
  refine .trans ?_ ((sameOutside_markNameSuffix profile).mono (by omega) (by omega))
  exact (SameOutside.refl ..).setRange (by omega) (by omega) |>.setRange (by omega) (by omega)

theorem markTypeSuffix_block {j : Nat} (hi : i < stop)
    (h : (Skip.block? profile buf true i).filter (· ≤ stop) = some j) :
    markTypeSuffix profile buf roles stop i =
      markTypeSuffix profile buf
        (if i + 1 < j then
          markTypeList profile buf ((roles.set i (some .openingTypeSuffix)).set (j - 1)
            (some .closingTypeSuffix)) (j - 1) (i + 1)
        else roles.set i (some .openingTypeSuffix)) stop j := by
  rw [markTypeSuffix, dif_pos hi]
  split
  case h_1 _ h' =>
    cases h.symm.trans h'
    rfl
  case h_2 h' => cases h.symm.trans h'

theorem markTypeSuffix_other (hi : i < stop)
    (h : (Skip.block? profile buf true i).filter (· ≤ stop) = none) :
    markTypeSuffix profile buf roles stop i =
      markTypeSuffix profile buf (roles.set i (some .typeSuffix)) stop (i + 1) := by
  rw [markTypeSuffix, dif_pos hi]
  split
  case h_1 _ h' => cases h.symm.trans h'
  case h_2 => rfl

theorem markTypeSuffix_end (hi : ¬i < stop) :
    markTypeSuffix profile buf roles stop i = roles := by
  rw [markTypeSuffix, dif_neg hi]

theorem markTypeList_piece (hi : i < stop) {j first last : Nat}
    (hj : (Word.read profile buf (isListSeparator buf) stop i).2 = j)
    (hlast : buf.beforeBlanks i j = last) (hfirst : buf.afterBlanks i last = first) :
    markTypeList profile buf roles stop i =
      markTypeList profile buf
        (if first < last then markModifiersAndType profile buf roles first last else roles) stop
        (j + 1) := by
  subst hj hlast hfirst
  rw [markTypeList, dif_pos hi]

theorem markTypeList_end (hi : ¬i < stop) : markTypeList profile buf roles stop i = roles := by
  rw [markTypeList, dif_neg hi]

theorem markModifiersAndType_eq :
    markModifiersAndType profile buf roles start stop =
      let words := modifiersAndLast profile buf roles start stop
      let marked := words.1.foldl (fun r w => r.setRange w.start w.stop (some .modifier)) roles
      match words.2 with
      | some w => markType profile buf marked w.start w.stop
      | none => marked := by
  rw [markModifiersAndType]
  dsimp only
  split <;> simp_all

theorem within_of_modifiersAndLast {w : Word}
    (hw : w ∈ (modifiersAndLast profile buf roles start stop).1 ∨
      (modifiersAndLast profile buf roles start stop).2 = some w) :
    start ≤ w.start ∧ w.start < w.stop ∧ w.stop ≤ stop := by
  have hread : w ∈ (Word.read profile buf (isSeparator roles) stop start).1 := by
    unfold modifiersAndLast at hw
    dsimp only at hw
    split at hw
    case isTrue => exact hw.elim (List.dropLast_subset _ ·) List.mem_of_getLast?
    case isFalse => exact hw.elim id (nomatch ·)
  exact Word.within_of_mem_read hread

theorem sameOutside_modifiers (h : stop ≤ bound) :
    SameOutside profile buf start bound roles
      ((modifiersAndLast profile buf roles start stop).1.foldl
        (fun r w => r.setRange w.start w.stop (some .modifier)) roles) := by
  refine .foldl (fun r w hw => ?_) roles
  have := within_of_modifiersAndLast profile (.inl hw)
  exact (SameOutside.refl ..).setRange (by omega) (by omega)

-- The names of types and their qualifiers are made of these tokens.
def IsTypePart (buf : Buffer) (k : Nat) : Prop :=
  isIdentifier buf k = true ∨ buf.isChar k '.' = true ∨ buf.isChar k ':' = true

-- A token that gets a role while a type from `i` to `stop` is marked, other than the role of a
-- bracket. The second of two colons may stand behind the end.
structure TypeToken (buf : Buffer) (i stop k : Nat) (role : Role) : Prop where
  le   : i ≤ k
  lt   : k < stop ∨ k = stop ∧ buf.isChar k ':' = true
  role : role = .modifier ∨ role = .typeSuffix ∨
    (role = .typeQualifier ∨ role = .type) ∧ IsTypePart buf k

-- All that marking a type from `i` to `stop` does, one token or block after the other. What stands in
-- a block is marked before what follows it. A block that the end of the text cuts off behind its
-- bracket has no list in it.
inductive TypeRun (profile : Profile) (buf : Buffer) : Nat → Nat → Roles → Roles → Prop
  | nil (i stop : Nat) (r : Roles) : TypeRun profile buf i stop r r
  | token {i stop k : Nat} {role : Role} {r r' : Roles} (ht : TypeToken buf i stop k role)
    (rest : TypeRun profile buf i stop (r.set k (some role)) r') : TypeRun profile buf i stop r r'
  | block {i stop k j : Nat} {r inner r' : Roles} (hi : i ≤ k)
    (hj : (Skip.block? profile buf true k).filter (· ≤ stop) = some j) (hlt : k + 1 < j)
    (list : TypeRun profile buf (k + 1) (j - 1)
      ((r.set k (some .openingTypeSuffix)).set (j - 1) (some .closingTypeSuffix)) inner)
    (rest : TypeRun profile buf j stop inner r') : TypeRun profile buf i stop r r'
  | bracket {i stop k : Nat} {r r' : Roles} (hi : i ≤ k)
    (hj : (Skip.block? profile buf true k).filter (· ≤ stop) = some (k + 1))
    (rest : TypeRun profile buf (k + 1) stop (r.set k (some .openingTypeSuffix)) r') :
    TypeRun profile buf i stop r r'

theorem lt_block?_filter {j : Nat}
    (h : (Skip.block? profile buf true i).filter (· ≤ stop) = some j) : i < j ∧ j ≤ stop := by
  obtain ⟨hj, hs⟩ := Option.filter_eq_some_iff.mp h
  exact ⟨Skip.lt_block? profile buf hj, of_decide_eq_true hs⟩

theorem typeToken_of_lt_typeEnds (hb : buf.WellFormed) {q k : Nat} (hi : i ≤ k)
    (hk : k < (typeEnds buf stop q i).2) :
    IsTypePart buf k ∧ (k < stop ∨ k = stop ∧ buf.isChar k ':' = true) := by
  fun_induction typeEnds buf stop q i
  case case1 hlt hc ih =>
    rcases Nat.eq_or_lt_of_le hi with rfl | hi
    case inl => exact ⟨.inr (.inl hc), .inl hlt⟩
    case inr => exact ih hi hk
  case case2 i hlt _ hm ih =>
    rw [Buffer.matchesAt_doubleColon hb, Bool.and_eq_true] at hm
    rcases Nat.eq_or_lt_of_le hi with rfl | hi
    case inl => exact ⟨.inr (.inr hm.1), .inl hlt⟩
    case inr =>
      rcases Nat.eq_or_lt_of_le (show i + 1 ≤ k from hi) with rfl | hi
      case inl => exact ⟨.inr (.inr hm.2), (Nat.lt_or_eq_of_le hlt).imp_right (⟨·, hm.2⟩)⟩
      case inr => exact ih hi hk
  case case3 hlt _ _ hid ih =>
    rcases Nat.eq_or_lt_of_le hi with rfl | hi
    case inl => exact ⟨.inl hid, .inl hlt⟩
    case inr => exact ih hi hk
  case case4 => omega
  case case5 => omega

namespace TypeRun

variable {profile} {r r' r'' : Roles} {m a b i' stop' : Nat} {role : Role}

theorem mono (h : TypeRun profile buf i stop r r') (hi : i' ≤ i) (hs : stop ≤ stop') :
    TypeRun profile buf i' stop' r r' := by
  have hfilter {stop k j : Nat} (hs : stop ≤ stop')
      (hj : (Skip.block? profile buf true k).filter (· ≤ stop) = some j) :
      (Skip.block? profile buf true k).filter (· ≤ stop') = some j := by
    obtain ⟨hj, hle⟩ := Option.filter_eq_some_iff.mp hj
    exact Option.filter_eq_some_iff.mpr ⟨hj, by simp at hle ⊢; omega⟩
  induction h generalizing i'
  case nil => exact .nil ..
  case token k _ _ _ ht _ ih =>
    have hle := ht.le
    have hlt := ht.lt
    refine .token ⟨by omega, ?_, ht.role⟩ (ih hi hs)
    rcases Nat.lt_or_eq_of_le hs with hs | rfl
    case inl => exact .inl (by omega)
    case inr => exact hlt
  case block hi' hj hlt list _ _ ih =>
    exact .block (by omega) (hfilter hs hj) hlt list (ih (Nat.le_refl _) hs)
  case bracket hi' hj _ ih => exact .bracket (by omega) (hfilter hs hj) (ih (Nat.le_refl _) hs)

theorem append (h : TypeRun profile buf i m r r') (h' : TypeRun profile buf m stop r' r'')
    (hi : i ≤ m) (hs : m ≤ stop) : TypeRun profile buf i stop r r'' := by
  induction h
  case nil => exact h'.mono hi (Nat.le_refl _)
  case token i m k _ _ _ ht _ ih =>
    have hlt := ht.lt
    refine .token ⟨ht.le, ?_, ht.role⟩ (ih h' hi hs)
    rcases Nat.lt_or_eq_of_le hs with hs | rfl
    case inl => exact .inl (by omega)
    case inr => exact hlt
  case block m _ _ _ _ _ hi' hj hlt list _ _ ih =>
    have hj' := lt_block?_filter profile hj
    refine .block hi' ?_ hlt list (ih h' hj'.2 hs)
    obtain ⟨hj, -⟩ := Option.filter_eq_some_iff.mp hj
    exact Option.filter_eq_some_iff.mpr ⟨hj, by simp; omega⟩
  case bracket hi' hj _ ih =>
    have hj' := lt_block?_filter profile hj
    refine .bracket hi' ?_ (ih h' hj'.2 hs)
    obtain ⟨hj, -⟩ := Option.filter_eq_some_iff.mp hj
    exact Option.filter_eq_some_iff.mpr ⟨hj, by simp; omega⟩

theorem range (ht : ∀ k, a ≤ k → k < b → TypeToken buf i stop k role)
    (h : TypeRun profile buf i stop (r.setRange a b (some role)) r') :
    TypeRun profile buf i stop r r' := by
  fun_induction Roles.setRange r a b (some role)
  case case1 hlt ih =>
    exact .token (ht _ (Nat.le_refl _) (by omega)) (ih (fun k hk => ht k (by omega)) h)
  case case2 => exact h

-- The modifiers before a type are words between `i` and `stop`.
theorem modifiers {words : List Word} (hw : ∀ w ∈ words, i ≤ w.start ∧ w.stop ≤ stop)
    (h : TypeRun profile buf i stop
      (words.foldl (fun r w => r.setRange w.start w.stop (some .modifier)) r) r') :
    TypeRun profile buf i stop r r' := by
  induction words generalizing r
  case nil => exact h
  case cons w words ih =>
    have ⟨hstart, hstop⟩ := hw w (.head _)
    have hrest := ih (fun v hv => hw v (.tail _ hv)) h
    exact .range (fun k hk hk' => ⟨by omega, .inl (by omega), .inl rfl⟩) hrest

end TypeRun

theorem typeRun_markType_mutual (hb : buf.WellFormed) :
    (∀ roles start stop, TypeRun profile buf start stop roles
      (markType profile buf roles start stop)) ∧
    (∀ roles stop i, TypeRun profile buf i stop roles (markTypeSuffix profile buf roles stop i)) ∧
    (∀ roles stop i, TypeRun profile buf i stop roles (markTypeList profile buf roles stop i)) ∧
    (∀ roles start stop, TypeRun profile buf start stop roles
      (markModifiersAndType profile buf roles start stop)) := by
  apply markType.mutual_induct profile buf
  case case1 =>
    dsimp only
    intro roles start stop ih
    rw [markType]
    have hstart := Buffer.le_seek (isIdentifier buf) start stop
    have hfirst (k : Nat) (hk : start ≤ k)
        (hlt : k < Buffer.seek (isIdentifier buf) start stop) : k < stop := by
      by_cases hle : start ≤ stop
      case pos => exact Nat.lt_of_lt_of_le hlt (Buffer.seek_le _ hle)
      case neg =>
        rw [Buffer.seek_end (by omega)] at hlt
        omega
    generalize Buffer.seek (isIdentifier buf) start stop = first at *
    have hends : first ≤ (typeEnds buf stop first first).1 ∧
        (typeEnds buf stop first first).1 ≤ (typeEnds buf stop first first).2 :=
      typeEnds_le (Nat.le_refl first)
    have hname (k : Nat) (hk : first ≤ k) (hlt : k < (typeEnds buf stop first first).2) :=
      typeToken_of_lt_typeEnds hb hk hlt
    refine .range (fun k hk hlt => ⟨hk, .inl (hfirst k hk hlt), .inl rfl⟩) <|
      .range (fun k hk hlt => ?qualifier) <| .range (fun k hk hlt => ?name) <|
        ih.mono (by omega) (Nat.le_refl _)
    case qualifier =>
      have ⟨hpart, hlt⟩ := hname k hk (by omega)
      exact ⟨by omega, hlt, .inr (.inr ⟨.inl rfl, hpart⟩)⟩
    case name =>
      have ⟨hpart, hlt⟩ := hname k (by omega) hlt
      exact ⟨by omega, hlt, .inr (.inr ⟨.inr rfl, hpart⟩)⟩
  case case2 =>
    dsimp only
    intro roles stop i hi j hj list _ rest
    have hlt := lt_block?_filter profile hj
    rw [markTypeSuffix_block profile hi hj]
    split
    case isTrue hij =>
      rw [dif_pos hij] at rest
      exact .block (Nat.le_refl i) hj hij (list hij) rest
    case isFalse hij =>
      rw [dif_neg hij] at rest
      obtain rfl : j = i + 1 := by omega
      exact .bracket (Nat.le_refl i) hj rest
  case case3 =>
    intro roles stop i hi hj rest
    rw [markTypeSuffix_other profile hi hj]
    exact .token ⟨Nat.le_refl i, .inl hi, .inr (.inl rfl)⟩ (rest.mono (by omega) (Nat.le_refl _))
  case case4 =>
    intro roles stop i hi
    rw [markTypeSuffix_end profile hi]
    exact .nil ..
  case case5 =>
    dsimp only
    intro roles stop i hi piece _ rest
    have hstop := Word.read_le profile buf (isListSeparator buf) (Nat.le_of_lt hi)
    have hle := Word.le_read profile buf (isListSeparator buf) stop i
    have hlast := buf.beforeBlanks_le i (Word.read profile buf (isListSeparator buf) stop i).2
    have hfirst := buf.le_afterBlanks i
      (buf.beforeBlanks i (Word.read profile buf (isListSeparator buf) stop i).2)
    rw [markTypeList_piece profile hi rfl rfl rfl]
    refine TypeRun.append ?piece (rest.mono (Nat.le_succ _) (Nat.le_refl _)) hle hstop
    case piece =>
      simp only [dite_eq_ite]
      split
      case isTrue hlt => exact (piece hlt).mono hfirst hlast
      case isFalse => exact .nil ..
  case case6 =>
    intro roles stop i hi
    rw [markTypeList_end profile hi]
    exact .nil ..
  case case7 =>
    dsimp only
    intro roles start stop w hw type
    obtain ⟨hstart, -, hstop⟩ := within_of_modifiersAndLast profile (.inr hw)
    rw [markModifiersAndType_eq]
    simp only [hw]
    refine .modifiers (fun v hv => ?_) (type.mono hstart hstop)
    have := within_of_modifiersAndLast profile (.inl hv)
    exact ⟨this.1, this.2.2⟩
  case case8 =>
    dsimp only
    intro roles start stop hw
    rw [markModifiersAndType_eq]
    simp only [hw]
    refine .modifiers (fun v hv => ?_) (.nil ..)
    have := within_of_modifiersAndLast profile (.inl hv)
    exact ⟨this.1, this.2.2⟩

theorem typeRun_markType (hb : buf.WellFormed) (roles : Roles) (start stop : Nat) :
    TypeRun profile buf start stop roles (markType profile buf roles start stop) :=
  (typeRun_markType_mutual profile hb).1 roles start stop

theorem typeRun_markTypeSuffix (hb : buf.WellFormed) (roles : Roles) (stop i : Nat) :
    TypeRun profile buf i stop roles (markTypeSuffix profile buf roles stop i) :=
  (typeRun_markType_mutual profile hb).2.1 roles stop i

theorem typeRun_markTypeList (hb : buf.WellFormed) (roles : Roles) (stop i : Nat) :
    TypeRun profile buf i stop roles (markTypeList profile buf roles stop i) :=
  (typeRun_markType_mutual profile hb).2.2.1 roles stop i

theorem typeRun_markModifiersAndType (hb : buf.WellFormed) (roles : Roles) (start stop : Nat) :
    TypeRun profile buf start stop roles (markModifiersAndType profile buf roles start stop) :=
  (typeRun_markType_mutual profile hb).2.2.2 roles start stop

theorem TypeToken.isSuffixBracket {k : Nat} {role : Role} (h : TypeToken buf i stop k role) :
    (some role).any Role.isSuffixBracket = false := by
  rcases h.role with rfl | rfl | ⟨rfl | rfl, -⟩ <;> rfl

-- What stands in a block is marked before the bracket that closes it, also where two colons reach
-- over its end.
theorem TypeRun.sameOutside {r r' : Roles} (h : TypeRun profile buf i stop r r')
    (hs : Within buf stop bound) : SameOutside profile buf i bound r r' := by
  induction h generalizing bound
  case nil => exact .refl ..
  case token ht _ ih =>
    refine .trans ((SameOutside.refl ..).set ht.le ?lt ⟨?notEnd, ?noBracket⟩) (ih hs)
    case lt =>
      rcases hs with hs | ⟨rfl, hs⟩
      case inl => exact ht.lt.elim (by omega) (by omega)
      case inr => exact ht.lt.elim id fun hc => by simp [← hc.1, hc.2] at hs
    case notEnd => rcases ht.role with rfl | rfl | ⟨rfl | rfl, -⟩ <;> simp
    case noBracket => exact fun hn => by simp [ht.isSuffixBracket] at hn
  case block hi hj hlt _ _ list rest =>
    have hj' := lt_block?_filter profile hj
    have hle := hs.le
    have hlist := list (.inl (Nat.sub_lt (by omega) Nat.one_pos))
    refine .trans (.trans (SameOutside.mono ?brackets hi hle) (hlist.mono (by omega) (by omega)))
      ((rest hs).mono (by omega) (Nat.le_refl _))
    exact (SameOutside.refl ..).set (Nat.le_refl _) (by omega) (admits_opening (by simp) hj)
      |>.set (by omega) (by omega) (admits_closing (by simp) hj)
  case bracket hi hj _ ih =>
    have hj' := lt_block?_filter profile hj
    refine .trans (SameOutside.mono ?bracket hi hs.le) ((ih hs).mono (by omega) (Nat.le_refl _))
    exact (SameOutside.refl ..).set (Nat.le_refl _) (by omega) (admits_opening (by simp) hj)

theorem sameOutside_markType (hb : buf.WellFormed) (h : Within buf stop bound) :
    SameOutside profile buf start bound roles (markType profile buf roles start stop) :=
  (typeRun_markType profile hb roles start stop).sameOutside profile h

theorem sameOutside_markModifiersAndType (hb : buf.WellFormed) (h : Within buf stop bound) :
    SameOutside profile buf start bound roles (markModifiersAndType profile buf roles start stop) :=
  (typeRun_markModifiersAndType profile hb roles start stop).sameOutside profile h

theorem sameOutside_markModifiersAndName (hb : buf.WellFormed) (h : Within buf stop bound) :
    SameOutside profile buf start bound roles (markModifiersAndName profile buf roles start stop) := by
  unfold markModifiersAndName
  dsimp only
  split
  case h_1 w hw =>
    obtain ⟨hstart, hlt, hstop⟩ := within_of_modifiersAndLast profile (.inr hw)
    refine .trans ?_ ((sameOutside_markName profile hb hlt (h.of_le hstop)).mono hstart
      (Nat.le_refl _))
    exact sameOutside_modifiers profile h.le
  case h_2 => exact sameOutside_modifiers profile h.le

theorem le_pointerStart (buf : Buffer) (h : start ≤ i) : start ≤ pointerStart buf start i := by
  fun_induction pointerStart buf start i
  case case1 ih => exact ih (by omega)
  case case2 j k hk =>
    by_cases hj : start = j
    case pos =>
      subst hj
      have : Buffer.retreat buf.isBlank (start + 1) start = start := by
        cases start <;> simp [Buffer.retreat]
      omega
    case neg =>
      have := Buffer.le_retreat buf.isBlank (show start + 1 ≤ j by omega)
      omega

theorem sameOutside_markDeclaredType (hb : buf.WellFormed) {w : Word} (hw : w.start < w.stop)
    (h : Within buf w.stop bound) :
    SameOutside profile buf w.start bound roles (markDeclaredType profile buf roles w) := by
  have hs := h.le
  unfold markDeclaredType
  dsimp only
  refine .trans (sameOutside_markType profile hb h) ?_
  split
  case isFalse => exact .refl ..
  case isTrue =>
    refine .foldl (fun r k hk => ?_) _
    have := le_pointerStart buf (Nat.le_of_lt hw)
    simp only [List.mem_range'_1] at hk
    split
    · exact (SameOutside.refl ..).set (by omega) (by omega)
    · split
      · exact (SameOutside.refl ..).set (by omega) (by omega)
      · exact .refl ..

theorem sameOutside_markWords (hb : buf.WellFormed) {words : List Word} (h : Within buf stop bound)
    (hw : ∀ w ∈ words, start ≤ w.start ∧ w.start < w.stop ∧ w.stop ≤ stop) :
    SameOutside profile buf start bound roles (markWords profile buf roles words) := by
  have hs := h.le
  fun_induction markWords profile buf roles words
  case case1 => exact .refl ..
  case case2 w =>
    have hw := hw w (by simp)
    exact (sameOutside_markName profile hb hw.2.1 (h.of_le hw.2.2)).mono hw.1 (Nat.le_refl _)
  case case3 roles v w =>
    have hv := hw v (by simp)
    have hw := hw w (by simp)
    refine .trans ?_
      ((sameOutside_markName profile hb hw.2.1 (h.of_le hw.2.2)).mono hw.1 (Nat.le_refl _))
    exact (sameOutside_markDeclaredType profile hb hv.2.1 (h.of_le hv.2.2)).mono hv.1 (Nat.le_refl _)
  case case4 w words _ _ ih =>
    have hv := hw w (by simp)
    refine .trans ?_ (ih fun v hv => hw v (.tail _ hv))
    exact (sameOutside_markModifier profile w hv.2.1).mono hv.1 (by omega)

-- A declaration may end here: neither two colons nor the sign of a default value reach over it.
structure IsEnd (buf : Buffer) (stop : Nat) : Prop where
  colon : buf.isChar stop ':' = false
  equals : buf.isChar stop '=' = false

theorem IsEnd.within (h : IsEnd buf stop) : Within buf stop stop :=
  .inr ⟨rfl, h.colon⟩

theorem IsEnd.add_two_le (h : IsEnd buf stop) (hb : buf.WellFormed) (hi : i < stop)
    (hm : buf.matchesAt i ":=" = true) : i + 2 ≤ stop := by
  rw [Buffer.matchesAt_assign hb, Bool.and_eq_true] at hm
  by_contra hlt
  obtain rfl : i + 1 = stop := by omega
  exact absurd hm.2 (by simp [h.equals])

theorem sameOutside_markDefault (hb : buf.WellFormed) (h : IsEnd buf stop) (hi : i < stop)
    (hd : isDefault buf i = true) : SameOutside profile buf i stop roles (markDefault buf roles i stop) := by
  unfold markDefault
  dsimp only
  generalize hsign : (if buf.isChar i '=' = true then i + 1 else i + 2) = sign
  have ⟨h₁, h₂⟩ : i ≤ sign ∧ sign ≤ stop := by
    simp only [isDefault, Bool.or_eq_true] at hd
    subst hsign
    split
    case isTrue => omega
    case isFalse hc =>
      have := h.add_two_le hb hi (hd.resolve_left hc)
      omega
  have h₃ := buf.le_afterBlanks sign stop
  have h₄ := buf.beforeBlanks_le (buf.afterBlanks sign stop) stop
  split
  · exact (SameOutside.refl ..).setRange (by omega) h₂ |>.setRange (by omega) h₄
  · exact (SameOutside.refl ..).setRange (by omega) h₂

theorem sameOutside_markC (hb : buf.WellFormed) (h : IsEnd buf stop) :
    SameOutside profile buf start stop roles (markC profile buf roles start stop) := by
  unfold markC
  dsimp only
  refine .trans ?_ (sameOutside_markWords profile hb h.within fun w hw =>
    Word.within_of_mem_read hw)
  split
  case isTrue hlt =>
    exact (sameOutside_markDefault profile hb h hlt (Word.halt_of_read_lt hlt)).mono
      (Word.le_read ..) (Nat.le_refl _)
  case isFalse => exact .refl ..

theorem sameOutside_survey (hb : buf.WellFormed) (h : IsEnd buf stop) (s : Survey) (i : Nat) :
    SameOutside profile buf i stop s.roles (survey profile buf stop s i).roles := by
  fun_induction survey profile buf stop s i
  case case1 hi hd => exact sameOutside_markDefault profile hb h hi hd
  case case2 ih => exact ih.mono (by omega) (Nat.le_refl _)
  case case3 ih =>
    exact .trans ((SameOutside.refl ..).set (by omega) (by omega))
      (ih.mono (by omega) (Nat.le_refl _))
  case case4 hi _ _ _ w hw ih =>
    exact ih.mono (Nat.le_of_lt (Word.lt_stop_of_at? profile buf hi hw)) (Nat.le_refl _)
  case case5 ih => exact ih.mono (by omega) (Nat.le_refl _)
  case case6 => exact .refl ..

theorem sameOutside_markPascalName (hb : buf.WellFormed) (h : Within buf stop bound) {n : Nat}
    {words : List Word}
    (hw : ∀ w ∈ words, start ≤ w.start ∧ w.start < w.stop ∧ w.stop ≤ stop) :
    SameOutside profile buf start bound roles (markPascalName profile buf roles n words) := by
  have hs := h.le
  fun_induction markPascalName profile buf roles n words
  case case3 w _ =>
    have hw := hw w (by simp)
    exact (sameOutside_markName profile hb hw.2.1 (h.of_le hw.2.2)).mono hw.1 (Nat.le_refl _)
  case case4 w _ ih =>
    have hv := hw w (by simp)
    refine .trans ?_ (ih fun v hv => hw v (.tail _ hv))
    exact (sameOutside_markModifier profile w hv.2.1).mono hv.1 (by omega)
  all_goals exact .refl ..

theorem sameOutside_markPascalType (hb : buf.WellFormed) (h : Within buf stop bound) {n : Nat}
    {words : List Word}
    (hw : ∀ w ∈ words, start ≤ w.start ∧ w.start < w.stop ∧ w.stop ≤ stop) :
    SameOutside profile buf start bound roles (markPascalType profile buf roles n words) := by
  have hs := h.le
  fun_induction markPascalType profile buf roles n words
  case case3 w _ =>
    have hw := hw w (by simp)
    exact (sameOutside_markType profile hb (h.of_le hw.2.2)).mono hw.1 (Nat.le_refl _)
  case case4 w _ ih =>
    have hv := hw w (by simp)
    refine .trans ?_ (ih fun v hv => hw v (.tail _ hv))
    exact (sameOutside_markModifier profile w hv.2.1).mono hv.1 (by omega)
  all_goals exact .refl ..

theorem sameOutside_markPascal (hb : buf.WellFormed) (h : IsEnd buf stop) :
    SameOutside profile buf start stop roles (markPascal profile buf roles start stop) := by
  have hwords {halt : Nat → Bool} {i : Nat} (hi : start ≤ i) (w : Word)
      (hw : w ∈ (Word.read profile buf halt stop i).1) :
      start ≤ w.start ∧ w.start < w.stop ∧ w.stop ≤ stop :=
    (Word.within_of_mem_read hw).imp_left hi.trans
  unfold markPascal
  dsimp only
  refine .trans ?name (sameOutside_markPascalType profile hb h.within (hwords ?le))
  case name =>
    refine .trans ?_ (sameOutside_markPascalName profile hb h.within (hwords (Nat.le_refl _)))
    exact sameOutside_survey profile hb h ⟨roles, 0, 0⟩ start
  case le => exact (Word.le_read ..).trans (Buffer.le_seek ..)

theorem sameOutside_mark (hb : buf.WellFormed) (h : IsEnd buf stop) (style : Style) :
    SameOutside profile buf start stop roles (mark profile buf style roles start stop) := by
  cases style
  case c => exact sameOutside_markC profile hb h
  case pascal => exact sameOutside_markPascal profile hb h

end Prototype
end SourceDocs

import SourceDocs.Proofs.Nesting
import SourceDocs.Proofs.Roles
import SourceDocs.Prototype.Parse

namespace SourceDocs

theorem Roles.get_empty (buf : Buffer) (k : Nat) : (Roles.empty buf).get k = none := by
  by_cases h : k < buf.size <;> simp [Roles.empty, Roles.get, h]

theorem Roles.get_foldl_set {roles : Roles} {role : Option Role} {is : List Nat} {k : Nat}
    (h : k ∉ is) : (is.foldl (fun r i => r.set i role) roles).get k = roles.get k := by
  induction is generalizing roles
  case nil => rfl
  case cons i is hi =>
    rw [List.foldl_cons, hi fun hk => h (.tail _ hk), Roles.get_set, if_neg]
    exact fun hk => h (hk.1 ▸ .head _)

theorem Roles.size_foldl_set (roles : Roles) (role : Option Role) (is : List Nat) :
    (is.foldl (fun r i => r.set i role) roles).slots.size = roles.slots.size := by
  induction is generalizing roles
  case nil => rfl
  case cons i is hi => rw [List.foldl_cons, hi, Roles.size_set]

namespace Prototype

variable {profile : Profile} {buf : Buffer} {d : Delimited} {closer : Char} {i k : Nat}

theorem Delimited.size_mark (d : Delimited) : (d.mark buf).slots.size = buf.size := by
  unfold Delimited.mark
  cases d.closer <;> simp [Roles.size_foldl_set, Roles.empty]

-- The type behind the list is marked first, then what stands before the list. What holds of the two
-- runs whatever they start from holds around the list.
theorem exists_of_markAround (profile : Profile) (buf : Buffer) (d : Delimited)
    (Behind Before : Roles → Roles → Prop) (hbehind : ∀ r, Behind r r) (hbefore : ∀ r, Before r r)
    (htype : ∀ r i, d.stop buf < i → i < buf.size →
      Behind r (markModifiersAndType profile buf r i buf.size))
    (hname : ∀ r, Before r (markModifiersAndName profile buf r 0 (buf.beforeBlanks 0 d.opener)))
    (hhead : ∀ r, Before r (markC profile buf r 0 (buf.beforeBlanks 0 d.opener))) (roles : Roles) :
    ∃ r, Behind roles r ∧ Before r (markAround profile buf d roles) := by
  have hbeforeList (r : Roles) : Before r (if 0 < buf.beforeBlanks 0 d.opener then
      markModifiersAndName profile buf r 0 (buf.beforeBlanks 0 d.opener) else r) := by
    split
    case isTrue => exact hname r
    case isFalse => exact hbefore r
  unfold markAround
  dsimp only
  split
  case isTrue =>
    have hafter := buf.le_afterBlanks (d.stop buf + 1) buf.size
    have hstart := buf.le_afterBlanks (buf.afterBlanks (d.stop buf + 1) buf.size + 1) buf.size
    refine ⟨_, ?_, hbeforeList _⟩
    split
    case isTrue hlt => exact htype roles _ (by omega) hlt
    case isFalse => exact hbehind roles
  case isFalse =>
    refine ⟨roles, hbehind roles, ?_⟩
    split
    case isTrue => exact hhead roles
    case isFalse => exact hbefore roles

-- Delimiting gives roles to the brackets and the separators only.
theorem Delimited.get_mark (ho : k ≠ d.opener) (hs : k ∉ d.separators) (hc : d.closer ≠ some k) :
    (d.mark buf).get k = none := by
  have h : (d.separators.foldl (fun r i => r.set i (some .parameterSeparator))
      ((Roles.empty buf).set d.opener (some .startOfParameters))).get k = none := by
    rw [Roles.get_foldl_set hs, Roles.get_set, if_neg fun h => ho h.1, Roles.get_empty]
  unfold Delimited.mark
  cases hd : d.closer
  case none => exact h
  case some j =>
    dsimp only
    rw [Roles.get_set, if_neg, h]
    rintro ⟨rfl, -⟩
    exact hc hd

theorem listSeparators_separator (hi : i < buf.size) (hs : isListSeparator buf i = true) :
    listSeparators profile buf closer i =
      (i :: (listSeparators profile buf closer (i + 1)).1,
        (listSeparators profile buf closer (i + 1)).2) := by
  rw [listSeparators, if_pos hi, if_pos hs]

theorem listSeparators_closer (hi : i < buf.size) (hs : isListSeparator buf i = false)
    (hc : buf.isChar i closer = true) :
    listSeparators profile buf closer i = ([], some i) := by
  rw [listSeparators, if_pos hi, if_neg (by simp [hs]), if_pos hc]

theorem listSeparators_other (hi : i < buf.size) (hs : isListSeparator buf i = false)
    (hc : buf.isChar i closer = false) (he : Skip.enclosed? profile buf true i = none) :
    listSeparators profile buf closer i = listSeparators profile buf closer (i + 1) := by
  rw [listSeparators, if_pos hi, if_neg (by simp [hs]), if_neg (by simp [hc])]
  split
  case h_1 hj => cases he.symm.trans hj
  case h_2 => rfl

-- The part of a list from `i` to `stop`, where a separator or the closing bracket stands outside of
-- comments, strings and blocks.
inductive Section (profile : Profile) (buf : Buffer) (closer : Char) : Nat → Nat → Prop
  | stop {i : Nat} (h : isListSeparator buf i = true ∨ buf.isChar i closer = true) :
    Section profile buf closer i i
  | step {i stop : Nat} (he : Skip.enclosed? profile buf true i = none)
    (h : Section profile buf closer (i + 1) stop) : Section profile buf closer i stop
  | jump {i j stop : Nat} (he : Skip.enclosed? profile buf true i = some j)
    (h : Section profile buf closer j stop) : Section profile buf closer i stop

namespace Section

variable {stop p : Nat}

theorem le (h : Section profile buf closer i stop) : i ≤ stop := by
  induction h
  case stop => exact Nat.le_refl _
  case step hi => omega
  case jump he _ hi =>
    have := Skip.lt_enclosed? profile buf he
    omega

theorem ender (h : Section profile buf closer i stop) :
    isListSeparator buf stop = true ∨ buf.isChar stop closer = true := by
  induction h
  case stop h => exact h
  case step hi => exact hi
  case jump hi => exact hi

-- What starts in a part of the list ends in it.
theorem ends (hb : buf.WellFormed) (hp : profile.Separate) (h : Section profile buf closer i stop)
    (hr : Skip.Reach profile buf i p) (hlt : p < stop) : Skip.Ends profile buf p stop := by
  induction h
  case stop =>
    have := hr.le
    omega
  case step i stop he h hi =>
    obtain ⟨hq, hn⟩ := Option.or_eq_none_iff.mp he
    rcases hr.of_step hq with rfl | hr
    case inl =>
      rw [Skip.block?, Option.map_eq_none_iff] at hn
      exact .of_quoted hn fun k hk => by cases hq.symm.trans hk
    case inr => exact hi hr hlt
  case jump i j stop he h hi =>
    rcases Option.or_eq_some_iff.mp he with hq | ⟨hq, hj⟩
    case inl =>
      rcases hr.of_jump hq with rfl | hr
      case inl =>
        have ho : Skip.opens? buf true p = none := by
          cases ho : Skip.opens? buf true p
          case none => rfl
          case some => cases hq.symm.trans (Skip.quoted?_eq_none_of_opens? hb hp ho)
        refine .of_quoted ho fun k hk => ?_
        obtain rfl := Option.some.inj (hq.symm.trans hk)
        exact h.le
      case inr => exact hi hr hlt
    case inr =>
      simp only [Skip.block?, Option.map_eq_some_iff] at hj
      obtain ⟨c, hc, rfl⟩ := hj
      have hnil : Skip.AreClosers [] := fun _ hd => absurd hd List.not_mem_nil
      rcases hr.of_step hq with rfl | hr
      case inl => exact .mono (.of_opens hb hp hc hnil) h.le
      case inr =>
        rcases Skip.closeBlocks_ends hb hp (hnil.cons hc) hr with hr | he
        case inl => exact hi hr hlt
        case inr => exact he.mono h.le

end Section

def sections (start stop : Nat) : List Nat → List (Nat × Nat)
  | [] => [(start, stop)]
  | i :: separators => (start, i) :: sections (i + 1) stop separators

theorem ranges_eq (start stop : Nat) (separators : List Nat) :
    Delimited.ranges buf start stop separators =
      (sections start stop separators).map fun r => Delimited.trimmed buf r.1 r.2 := by
  induction separators generalizing start
  case nil => rfl
  case cons i is hi => simp only [Delimited.ranges, sections, List.map_cons, hi]

theorem sections_eq_cons (stop : Nat) (separators : List Nat) :
    ∃ first rest, ∀ start, sections start stop separators = (start, first) :: rest := by
  cases separators
  case nil => exact ⟨stop, [], fun _ => rfl⟩
  case cons i is => exact ⟨i, sections (i + 1) stop is, fun _ => rfl⟩

-- A step that is no separator only moves the start of the first part.
theorem section_of_listSeparators {is : List Nat} {c : Nat} {r : Nat × Nat}
    (h : listSeparators profile buf closer i = (is, some c)) (hr : r ∈ sections i c is) :
    Section profile buf closer r.1 r.2 := by
  fun_induction listSeparators profile buf closer i generalizing is r
  case case1 i hi hs _ ih =>
    obtain ⟨rfl, hc⟩ := Prod.mk.inj h
    rcases List.mem_cons.mp hr with rfl | hr
    case inl => exact .stop (.inl hs)
    case inr => exact ih (Prod.ext rfl hc) hr
  case case2 i hi hs hc =>
    obtain ⟨rfl, hc'⟩ := Prod.mk.inj h
    cases hc'
    obtain rfl := List.mem_singleton.mp hr
    exact .stop (.inr hc)
  case case3 i hi _ _ j he ih =>
    have ⟨first, rest, hsections⟩ := sections_eq_cons c is
    rw [hsections] at hr
    rcases List.mem_cons.mp hr with rfl | hr
    case inl => exact .jump he (@ih _ (j, first) h (by simp [hsections]))
    case inr => exact ih h (by simp [hsections, hr])
  case case4 i hi _ _ he ih =>
    have ⟨first, rest, hsections⟩ := sections_eq_cons c is
    rw [hsections] at hr
    rcases List.mem_cons.mp hr with rfl | hr
    case inl => exact .step he (@ih _ (i + 1, first) h (by simp [hsections]))
    case inr => exact ih h (by simp [hsections, hr])
  case case5 => cases h

theorem mem_listSeparators (hk : k ∈ (listSeparators profile buf closer i).1) :
    isListSeparator buf k = true := by
  fun_induction listSeparators profile buf closer i
  case case1 i _ hs _ ih =>
    cases hk
    case head => exact hs
    case tail hk => exact ih hk
  case case2 => cases hk
  case case3 ih => exact ih hk
  case case4 ih => exact ih hk
  case case5 => cases hk

theorem closer_of_listSeparators (h : (listSeparators profile buf closer i).2 = some k) :
    buf.isChar k closer = true := by
  fun_induction listSeparators profile buf closer i
  case case1 ih => exact ih h
  case case2 hc =>
    cases h
    exact hc
  case case3 ih => exact ih h
  case case4 ih => exact ih h
  case case5 => cases h

theorem stop_of_mem_sections {start stop : Nat} {separators : List Nat} {r : Nat × Nat}
    (hr : r ∈ sections start stop separators) : r.2 ∈ separators ∨ r.2 = stop := by
  induction separators generalizing start
  case nil => exact .inr (congrArg Prod.snd (List.mem_singleton.mp hr))
  case cons i is hi =>
    rcases List.mem_cons.mp hr with rfl | hr
    case inl => exact .inl (.head _)
    case inr => exact (hi hr).imp_left (.tail _)

-- The parts from `start` to `stop` follow each other, and the separators stand between them.
structure Ordered (start stop : Nat) (separators : List Nat) (parts : List (Nat × Nat)) : Prop where
  pairwise : parts.Pairwise (·.2 < ·.1)
  start_le : ∀ r ∈ parts, start ≤ r.1
  le_stop : ∀ r ∈ parts, r.2 ≤ stop
  separators : ∀ r ∈ parts, ∀ i ∈ separators, i < r.1 ∨ r.2 ≤ i

theorem ordered_sections {start stop : Nat} {separators : List Nat}
    (h : ∀ r ∈ sections start stop separators, r.1 ≤ r.2) :
    Ordered start stop separators (sections start stop separators) ∧
      ∀ i ∈ separators, start ≤ i := by
  induction separators generalizing start
  case nil => exact ⟨⟨by simp [sections], by simp [sections], by simp [sections], by simp⟩, by simp⟩
  case cons i is hi =>
    have hle : start ≤ i := h (start, i) (.head _)
    have ⟨ho, hs⟩ := @hi (i + 1) fun r hr => h r (.tail _ hr)
    have histop : i ≤ stop := by
      have ⟨first, rest, hcons⟩ := sections_eq_cons stop is
      have hmem : (i + 1, first) ∈ sections (i + 1) stop is := by simp [hcons]
      have := h _ (.tail _ hmem)
      have := ho.le_stop _ hmem
      dsimp only at *
      omega
    refine ⟨⟨?pairwise, fun r hr => ?start_le, fun r hr => ?le_stop,
      fun r hr m hm => ?separators⟩, fun m hm => ?behind⟩
    case pairwise => exact .cons (fun r hr => ho.start_le r hr) ho.pairwise
    case start_le =>
      rcases List.mem_cons.mp hr with rfl | hr
      case inl => exact Nat.le_refl _
      case inr =>
        have := ho.start_le r hr
        omega
    case le_stop =>
      rcases List.mem_cons.mp hr with rfl | hr
      case inl => exact histop
      case inr => exact ho.le_stop r hr
    case separators =>
      rcases List.mem_cons.mp hr with rfl | hr <;> rcases List.mem_cons.mp hm with rfl | hm
      case inl.inl => exact .inr (Nat.le_refl _)
      case inl.inr =>
        have := hs m hm
        exact .inr (by dsimp only; omega)
      case inr.inl => exact .inl (ho.start_le r hr)
      case inr.inr => exact ho.separators r hr m hm
    case behind =>
      rcases List.mem_cons.mp hm with rfl | hm
      case inl => exact hle
      case inr =>
        have := hs m hm
        omega

-- `r` is the part from `start` to `stop` without the blanks at its ends.
structure Trimmed (buf : Buffer) (start stop : Nat) (r : Nat × Nat) : Prop where
  start_le : start ≤ r.1
  le : r.1 ≤ r.2
  le_stop : r.2 ≤ stop
  behind : ∀ k, r.2 ≤ k → k < stop → buf.isBlank k = true
  first : r.1 < r.2 → buf.isBlank r.1 = false
  last : r.1 < r.2 → buf.isBlank (r.2 - 1) = false

theorem trimmed_trimmed (h : i ≤ k) : Trimmed buf i k (Delimited.trimmed buf i k) where
  start_le := buf.le_afterBlanks i k
  le := buf.le_beforeBlanks (buf.afterBlanks_le h)
  le_stop := buf.beforeBlanks_le ..
  behind _ hm hk := Buffer.of_retreat_le hm hk
  first hlt := by
    have hn := Buffer.of_seek_lt (p := (!buf.isBlank ·)) (hlt.trans_le (buf.beforeBlanks_le ..))
    exact Bool.not_eq_true' _ ▸ hn
  last hlt := Buffer.not_of_lt_retreat hlt

-- A declaration can end where a separator or a closing bracket stands, or a blank.
theorem isEnd_of_forall (h : ∀ c, buf.isChar k c = true → c ∉ [':', '=']) : IsEnd buf k where
  colon := by
    rw [Bool.eq_false_iff]
    exact fun hc => h _ hc (by simp)
  equals := by
    rw [Bool.eq_false_iff]
    exact fun hc => h _ hc (by simp)

theorem isEnd_of_isBlank (h : buf.isBlank k = true) : IsEnd buf k :=
  isEnd_of_forall fun c hc => by simp [Buffer.not_isBlank_of_isChar hc] at h

theorem isEnd_of_isChar {c : Char} (h : buf.isChar k c = true) (hc : c ∉ [':', '=']) :
    IsEnd buf k :=
  isEnd_of_forall fun _ hd => Buffer.eq_of_isChar h hd ▸ hc

theorem isEnd_size (buf : Buffer) : IsEnd buf buf.size :=
  isEnd_of_forall fun _ hc => absurd (buf.lt_size_of_isChar hc) (Nat.lt_irrefl _)

theorem isEnd_beforeBlanks (h : IsEnd buf k) (i : Nat) : IsEnd buf (buf.beforeBlanks i k) := by
  rcases Nat.lt_or_eq_of_le (buf.beforeBlanks_le i k) with hk | hk
  case inl => exact isEnd_of_isBlank (Buffer.of_retreat_le (Nat.le_refl _) hk)
  case inr => exact hk.symm ▸ h

theorem brackets_of_listOpening? {c : Char} (h : listOpening? profile buf i = some (k, c)) :
    (∃ b ∈ "([\x7b".toList, buf.isChar k b = true) ∧ c ∈ ")]\x7d".toList := by
  fun_induction listOpening? profile buf i
  case case1 ih => exact ih h
  case case2 hc =>
    cases h
    exact ⟨⟨'(', by decide, hc⟩, by decide⟩
  case case3 hc =>
    cases h
    rw [Bool.and_eq_true] at hc
    exact ⟨⟨'[', by decide, hc.1⟩, by decide⟩
  case case4 hc =>
    cases h
    exact ⟨⟨'\x7b', by decide, hc⟩, by decide⟩
  case case5 ih => exact ih h
  case case6 => cases h

structure IsList (profile : Profile) (buf : Buffer) (closer : Char) (d : Delimited) : Prop where
  opener : ∃ b ∈ "([\x7b".toList, buf.isChar d.opener b = true
  closer_mem : closer ∈ ")]\x7d".toList
  separators : listSeparators profile buf closer (d.opener + 1) = (d.separators, d.closer)

theorem isList_of_delimit? (h : delimit? profile buf = some d) :
    ∃ closer, IsList profile buf closer d := by
  simp only [delimit?, Option.bind_eq_bind, Option.bind_eq_some_iff] at h
  obtain ⟨⟨opener, closer⟩, ho, hd⟩ := h
  cases hd
  have ⟨hopener, hcloser⟩ := brackets_of_listOpening? ho
  exact ⟨closer, hopener, hcloser, rfl⟩

theorem parameters_sublist (d : Delimited) (buf : Buffer) :
    (d.parameters buf).Sublist ((sections (d.opener + 1) (d.stop buf) d.separators).map fun r =>
      Delimited.trimmed buf r.1 r.2) := by
  rw [← ranges_eq]
  unfold Delimited.parameters
  split
  case h_1 hr =>
    rw [hr]
    split
    case isTrue => exact List.nil_sublist _
    case isFalse => exact .refl _
  case h_2 => exact .refl _

namespace IsList

variable (h : IsList profile buf closer d)

include h

theorem isEnd_separator (hk : k ∈ d.separators) : IsEnd buf k := by
  have hs : k ∈ (listSeparators profile buf closer (d.opener + 1)).1 := by rwa [h.separators]
  rcases Bool.or_eq_true .. ▸ mem_listSeparators hs with hc | hc
  case inl => exact isEnd_of_isChar hc (by decide)
  case inr => exact isEnd_of_isChar hc (by decide)

theorem isChar_closer (hk : d.closer = some k) : buf.isChar k closer = true :=
  closer_of_listSeparators (by rw [h.separators, hk])

theorem isEnd_stop : IsEnd buf (d.stop buf) := by
  unfold Delimited.stop
  cases hc : d.closer
  case none => exact isEnd_size buf
  case some k =>
    have hcloser : ∀ c ∈ ")]\x7d".toList, c ∉ [':', '='] := by decide
    exact isEnd_of_isChar (h.isChar_closer hc) (hcloser _ h.closer_mem)

theorem isEnd_opener : IsEnd buf d.opener := by
  have hopener : ∀ b ∈ "([\x7b".toList, b ∉ [':', '='] := by decide
  obtain ⟨b, hm, hb⟩ := h.opener
  exact isEnd_of_isChar hb (hopener b hm)

theorem isEnd_parameter {r : Nat × Nat} (hr : r ∈ d.parameters buf) : IsEnd buf r.2 := by
  obtain ⟨part, hpart, rfl⟩ := List.mem_map.mp ((parameters_sublist d buf).mem hr)
  refine isEnd_beforeBlanks ?_ _
  rcases stop_of_mem_sections hpart with hs | hs
  case inl => exact h.isEnd_separator hs
  case inr => exact hs ▸ h.isEnd_stop

-- The parts of a closed list run up to its separators and its closing bracket.
theorem section_of_mem {c : Nat} (hc : d.closer = some c) {r : Nat × Nat}
    (hr : r ∈ sections (d.opener + 1) c d.separators) : Section profile buf closer r.1 r.2 :=
  section_of_listSeparators (by rw [h.separators, hc]) hr

theorem ordered {c : Nat} (hc : d.closer = some c) :
    Ordered (d.opener + 1) c d.separators (sections (d.opener + 1) c d.separators) :=
  (ordered_sections fun _ hr => (h.section_of_mem hc hr).le).1

theorem exists_part {c : Nat} (hc : d.closer = some c) {r : Nat × Nat}
    (hr : r ∈ d.parameters buf) :
    ∃ part ∈ sections (d.opener + 1) c d.separators, r = Delimited.trimmed buf part.1 part.2 ∧
      Trimmed buf part.1 part.2 r := by
  have hmem := (parameters_sublist d buf).mem hr
  rw [Delimited.stop, hc] at hmem
  obtain ⟨part, hpart, rfl⟩ := List.mem_map.mp hmem
  exact ⟨part, hpart, rfl, trimmed_trimmed (h.section_of_mem hc hpart).le⟩

theorem bounds_of_mem_parameters {c : Nat} (hc : d.closer = some c) {r : Nat × Nat}
    (hr : r ∈ d.parameters buf) : r.1 ≤ r.2 ∧ r.2 < buf.size := by
  obtain ⟨part, hpart, -, ht⟩ := h.exists_part hc hr
  have hlt := buf.lt_size_of_isChar (h.isChar_closer hc)
  exact ⟨ht.le, (ht.le_stop.trans ((h.ordered hc).le_stop part hpart)).trans_lt hlt⟩

theorem pairwise_parameters {c : Nat} (hc : d.closer = some c) :
    (d.parameters buf).Pairwise (·.2 < ·.1) := by
  refine List.Pairwise.sublist (parameters_sublist d buf) ?_
  rw [Delimited.stop, hc, List.pairwise_map]
  refine (h.ordered hc).pairwise.imp fun {a b} hab => ?_
  have hstop : (Delimited.trimmed buf a.1 a.2).2 ≤ a.2 := buf.beforeBlanks_le ..
  have hstart : b.1 ≤ (Delimited.trimmed buf b.1 b.2).1 := buf.le_afterBlanks ..
  omega

end IsList

end Prototype
end SourceDocs

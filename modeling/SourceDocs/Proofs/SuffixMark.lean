import SourceDocs.Proofs.SuffixPairs

namespace SourceDocs.Prototype

open Roles

variable (profile : Profile) {buf : Buffer} {roles : Roles} {start stop i j k : Nat}

theorem not_isBracket_colon (h : buf.isChar k ':' = true) : buf.isBracket k = false :=
  Buffer.isBracket_of_isChar h

theorem not_isBracket_equals (h : buf.isChar k '=' = true) : buf.isBracket k = false :=
  Buffer.isBracket_of_isChar h

theorem second_colon (hb : buf.WellFormed) (h : buf.matchesAt i "::" = true) :
    buf.isChar (i + 1) ':' = true := by
  rw [Buffer.matchesAt_doubleColon hb, Bool.and_eq_true] at h
  exact h.2

-- A name that reaches over its end reaches over the second of two colons.
theorem not_isBracket_of_lt_qualifiedEnd (hb : buf.WellFormed)
    (hi : ∀ k, stop ≤ k → k < i → buf.isBracket k = false) (hk : stop ≤ k)
    (hlt : k < qualifiedEnd buf stop i) : buf.isBracket k = false := by
  fun_induction qualifiedEnd buf stop i
  case case1 ih => exact ih (fun m hm hmi => hi m hm (by omega)) hlt
  case case2 i _ _ hc ih =>
    refine ih (fun m hm hmi => ?_) hlt
    obtain rfl : m = i + 1 := by omega
    exact not_isBracket_colon (second_colon hb hc)
  case case3 => exact hi k hk hlt
  case case4 => exact hi k hk hlt

theorem plain_markModifier (w : Word) :
    Plain buf w.start w.stop roles (markModifier roles w) := by
  unfold markModifier
  split
  case isTrue =>
    exact (Plain.refl ..).set (.inl (by omega)) |>.set (.inl (by omega))
  case isFalse => exact (Plain.refl ..).setRange (fun k hk hk' => .inl ⟨hk, hk'⟩)

theorem marks_markNameSuffix (hi : i ≤ stop) (hs : stop ≤ buf.size) :
    Marks profile buf i stop roles (markNameSuffix profile buf roles stop i) := by
  fun_induction markNameSuffix profile buf roles stop i
  case case1 i _ j h roles' ih =>
    obtain ⟨hj, hjs⟩ := Option.filter_eq_some_iff.mp h
    have hij := Skip.lt_block? profile buf hj
    simp only [decide_eq_true_eq] at hjs
    refine .append (Nat.le_of_lt hij) hjs hs ?_ (ih hjs)
    by_cases hlt : i + 1 < j
    case pos => exact .block .name hj (by omega) hlt (.refl (by omega))
    case neg =>
      obtain rfl : j = i + 1 := by omega
      simp only [roles', Nat.add_sub_cancel, set_set]
      exact .last_block .name hj (by omega) hlt (.inr rfl)
  case case2 roles i hlt h roles' ih =>
    refine .after_plain ?_ ((ih hlt).mono (Nat.le_succ i) hlt (Nat.le_refl _) hs)
    simp only [roles']
    split
    · exact .refl ..
    · exact (Plain.refl ..).set (.inl ⟨Nat.le_refl i, hlt⟩)
  case case3 => exact .refl hi

theorem marks_markName (hb : buf.WellFormed) {w : Word} (hw : w.start ≤ w.stop)
    (hs : w.stop ≤ buf.size) :
    Marks profile buf w.start w.stop roles (markName profile buf roles w) := by
  unfold markName
  dsimp only
  have h₁ := Buffer.le_seek (isIdentifier buf) w.start w.stop
  have h₂ := Buffer.seek_le (isIdentifier buf) hw
  generalize Buffer.seek (isIdentifier buf) w.start w.stop = first at *
  have h₃ := le_qualifiedEnd buf w.stop first
  have hname : Plain buf w.start w.stop roles ((roles.setRange w.start first
      (some .namePrefix)).setRange first (qualifiedEnd buf w.stop first) (some .name)) := by
    refine (Plain.refl ..).setRange (fun k hk hk' => .inl (by omega)) |>.setRange
      (fun k hk hk' => ?_)
    by_cases hlt : k < w.stop
    case pos => exact .inl (by omega)
    case neg => exact .inr (not_isBracket_of_lt_qualifiedEnd hb (by omega) (by omega) hk')
  refine .after_plain hname ?_
  by_cases hle : qualifiedEnd buf w.stop first ≤ w.stop
  case pos => exact (marks_markNameSuffix profile hle hs).mono (by omega) hle (Nat.le_refl _) hs
  case neg =>
    rw [markNameSuffix, if_neg (by omega)]
    exact .refl hw

theorem plain_modifiers :
    Plain buf start stop roles ((modifiersAndLast profile buf roles start stop).1.foldl
      (fun r w => r.setRange w.start w.stop (some .modifier)) roles) := by
  refine .foldl (fun r w hw => ?_) roles
  have := within_of_modifiersAndLast profile (.inl hw)
  exact (Plain.refl ..).setRange (fun k hk hk' => .inl (by omega))

-- A list of types is marked within its brackets, which keep their roles also where two colons reach
-- over its end.
theorem TypeRun.marks {r r' : Roles} (h : TypeRun profile buf i stop r r') (hi : i ≤ stop)
    (hs : stop ≤ buf.size) : Marks profile buf i stop r r' := by
  induction h
  case nil => exact .refl hi
  case token ht _ ih =>
    refine .after_plain (Plain.set (.refl ..) ?place ht.isSuffixBracket ?noList) (ih hi hs)
    case place =>
      refine ht.lt.imp (⟨ht.le, ·⟩) fun hc => ?_
      exact not_isBracket_colon hc.2
    case noList => rcases ht.role with rfl | rfl | ⟨rfl | rfl, -⟩ <;> rfl
  case block hi' hj hlt _ _ list rest =>
    have hj' := lt_block?_filter profile hj
    obtain ⟨hblock, -⟩ := Option.filter_eq_some_iff.mp hj
    have hpart := Marks.block .type hblock (by omega) hlt (list (by omega) (by omega))
    exact (hpart.mono hi' (by omega) (Nat.le_refl _) (by omega)).append (by omega) hj'.2 hs
      (rest hj'.2 hs)
  case bracket k r _ hi' hj _ rest =>
    have hj' := lt_block?_filter profile hj
    obtain ⟨hblock, -⟩ := Option.filter_eq_some_iff.mp hj
    have hpart : Marks profile buf k (k + 1) r (r.set k (some .openingTypeSuffix)) :=
      .last_block .type hblock (by omega) (Nat.lt_irrefl _) (.inl rfl)
    exact (hpart.mono hi' (by omega) (Nat.le_refl _) (by omega)).append (by omega) hj'.2 hs
      (rest hj'.2 hs)

theorem marks_markType (hb : buf.WellFormed) (hle : start ≤ stop) (hs : stop ≤ buf.size) :
    Marks profile buf start stop roles (markType profile buf roles start stop) :=
  (typeRun_markType profile hb roles start stop).marks profile hle hs

theorem marks_markModifiersAndType (hb : buf.WellFormed) (hle : start ≤ stop)
    (hs : stop ≤ buf.size) :
    Marks profile buf start stop roles (markModifiersAndType profile buf roles start stop) :=
  (typeRun_markModifiersAndType profile hb roles start stop).marks profile hle hs

theorem marks_markModifiersAndName (hb : buf.WellFormed) (hle : start ≤ stop)
    (hs : stop ≤ buf.size) :
    Marks profile buf start stop roles (markModifiersAndName profile buf roles start stop) := by
  unfold markModifiersAndName
  dsimp only
  split
  case h_1 w hw =>
    obtain ⟨hstart, hlt, hstop⟩ := within_of_modifiersAndLast profile (.inr hw)
    refine .after_plain (plain_modifiers profile) ?_
    exact (marks_markName profile hb (Nat.le_of_lt hlt) (by omega)).mono hstart (Nat.le_of_lt hlt)
      hstop hs
  case h_2 => exact (plain_modifiers profile).marks hle

-- Pointer symbols and blanks get other roles than the type, and no bracket does.
theorem marks_markDeclaredType (hb : buf.WellFormed) {w : Word} (hw : w.start ≤ w.stop)
    (hs : w.stop ≤ buf.size) :
    Marks profile buf w.start w.stop roles (markDeclaredType profile buf roles w) := by
  unfold markDeclaredType
  dsimp only
  refine .then_plain (marks_markType profile hb hw hs) ?_ hw
  split
  case isFalse => exact .refl ..
  case isTrue =>
    refine .foldl (fun r k _ => ?_) _
    split
    case isTrue hk => exact (Plain.refl ..).set (.inr (Buffer.not_isBracket_of_isPointer hk))
    case isFalse =>
      split
      case isTrue hk => exact (Plain.refl ..).set (.inr (Buffer.not_isBracket_of_isBlank hk))
      case isFalse => exact .refl ..

theorem plain_markDefault (hb : buf.WellFormed) (hi : i < stop) (hd : isDefault buf i = true) :
    Plain buf i stop roles (markDefault buf roles i stop) := by
  unfold markDefault
  dsimp only
  have hsign : Plain buf i stop roles (roles.setRange i
      (if buf.isChar i '=' = true then i + 1 else i + 2) (some .defaultSeparator)) := by
    refine (Plain.refl ..).setRange (fun k hk hk' => ?_)
    by_cases hlt : k < stop
    case pos => exact .inl ⟨hk, hlt⟩
    case neg =>
      split at hk'
      case isTrue => omega
      case isFalse hc =>
        simp only [isDefault, hc, Bool.false_or, Buffer.matchesAt_assign hb, Bool.and_eq_true] at hd
        obtain rfl : k = i + 1 := by omega
        exact .inr (not_isBracket_equals hd.2)
  generalize hafter : (if buf.isChar i '=' = true then i + 1 else i + 2) = sign at *
  have hle : i ≤ sign := by
    subst hafter
    split <;> omega
  have h₁ := buf.le_afterBlanks sign stop
  have h₂ := buf.beforeBlanks_le (buf.afterBlanks sign stop) stop
  split
  case isTrue => exact hsign.setRange (fun k hk hk' => .inl (by omega))
  case isFalse => exact hsign

section Words

variable {words : List Word} (hb : buf.WellFormed)
  (hw : ∀ w ∈ words, start ≤ w.start ∧ w.start < w.stop ∧ w.stop ≤ stop)
  (hp : words.Pairwise (·.stop ≤ ·.start)) (hle : start ≤ stop) (hs : stop ≤ buf.size)

include hb hw hp hle hs

theorem marks_markWords :
    Marks profile buf start stop roles (markWords profile buf roles words) := by
  fun_induction markWords profile buf roles words generalizing start
  case case1 => exact .refl hle
  case case2 roles w =>
    have hw := hw w (by simp)
    exact (marks_markName profile hb (by omega) (by omega)).mono hw.1 (by omega) hw.2.2 hs
  case case3 roles v w =>
    have hv := hw v (by simp)
    have hw := hw w (by simp)
    have hvw : v.stop ≤ w.start := by simpa using hp
    have htype : Marks profile buf start v.stop roles (markDeclaredType profile buf roles v) :=
      (marks_markDeclaredType profile hb (by omega) (by omega)).mono hv.1 (by omega) (Nat.le_refl _)
        (by omega)
    refine htype.append (by omega) (by omega) hs ?_
    exact (marks_markName profile hb (by omega) (by omega)).mono hvw (by omega) hw.2.2 hs
  case case4 roles w words _ _ ih =>
    have hv := hw w (by simp)
    refine .after_plain ((plain_markModifier w).mono hv.1 hv.2.2) ?_
    exact ih (fun v hv => hw v (.tail _ hv)) (List.pairwise_cons.mp hp).2 hle

theorem marks_markPascalName {n : Nat} :
    Marks profile buf start stop roles (markPascalName profile buf roles n words) := by
  fun_induction markPascalName profile buf roles n words
  case case3 w _ =>
    have hw := hw w (by simp)
    exact (marks_markName profile hb (by omega) (by omega)).mono hw.1 (by omega) hw.2.2 hs
  case case4 w _ ih =>
    have hv := hw w (by simp)
    refine .after_plain ((plain_markModifier w).mono hv.1 hv.2.2) ?_
    exact ih (fun v hv => hw v (.tail _ hv)) (List.pairwise_cons.mp hp).2
  all_goals exact .refl hle

theorem marks_markPascalType {n : Nat} :
    Marks profile buf start stop roles (markPascalType profile buf roles n words) := by
  fun_induction markPascalType profile buf roles n words
  case case3 w _ =>
    have hw := hw w (by simp)
    exact (marks_markType profile hb (by omega) (by omega)).mono hw.1 (by omega) hw.2.2 hs
  case case4 w _ ih =>
    have hv := hw w (by simp)
    refine .after_plain ((plain_markModifier w).mono hv.1 hv.2.2) ?_
    exact ih (fun v hv => hw v (.tail _ hv)) (List.pairwise_cons.mp hp).2
  all_goals exact .refl hle

end Words

theorem marks_markC (hb : buf.WellFormed) (hle : start ≤ stop) (hs : stop ≤ buf.size) :
    Marks profile buf start stop roles (markC profile buf roles start stop) := by
  unfold markC
  dsimp only
  refine .after_plain ?_ (marks_markWords profile hb (fun w hw => Word.within_of_mem_read hw)
    Word.pairwise_read hle hs)
  split
  case isTrue hlt =>
    exact (plain_markDefault hb hlt (Word.halt_of_read_lt hlt)).mono (Word.le_read ..)
      (Nat.le_refl _)
  case isFalse => exact .refl ..

theorem plain_survey (hb : buf.WellFormed) (s : Survey) (hi : start ≤ i) :
    Plain buf start stop s.roles (survey profile buf stop s i).roles := by
  fun_induction survey profile buf stop s i
  case case1 hlt hd => exact (plain_markDefault hb hlt hd).mono hi (Nat.le_refl _)
  case case2 ih => exact ih (by omega)
  case case3 ih => exact .trans ((Plain.refl ..).set (.inl (by omega))) (ih (by omega))
  case case4 hlt _ _ _ w hw ih =>
    have := Word.lt_stop_of_at? profile buf hlt hw
    exact ih (by omega)
  case case5 ih => exact ih (by omega)
  case case6 => exact .refl ..

theorem marks_markPascal (hb : buf.WellFormed) (hle : start ≤ stop) (hs : stop ≤ buf.size) :
    Marks profile buf start stop roles (markPascal profile buf roles start stop) := by
  have hwords {halt : Nat → Bool} {i : Nat} (w : Word)
      (hw : w ∈ (Word.read profile buf halt stop i).1) :
      i ≤ w.start ∧ w.start < w.stop ∧ w.stop ≤ (Word.read profile buf halt stop i).2 :=
    ⟨(Word.bounds_of_mem_read profile buf hw).1, Word.start_lt_stop_of_mem_read hw,
      Word.stop_le_of_mem_read hw⟩
  unfold markPascal
  dsimp only
  have hsurvey : Plain buf start stop roles (survey profile buf stop ⟨roles, 0, 0⟩ start).roles :=
    plain_survey profile hb ⟨roles, 0, 0⟩ (Nat.le_refl start)
  generalize survey profile buf stop ⟨roles, 0, 0⟩ start = s at *
  generalize (if s.beforeColon = 0 then s.words else s.beforeColon) = before
  refine .after_plain hsurvey ?_
  -- The words of the type follow those of the name.
  have hfirst := Word.le_read profile buf (isSeparator s.roles) stop start
  have hbehind := Word.read_le profile buf (isSeparator s.roles) hle
  have hname : Marks profile buf start (Word.read profile buf (isSeparator s.roles) stop start).2
      s.roles (markPascalName profile buf s.roles before
        (Word.read profile buf (isSeparator s.roles) stop start).1) :=
    marks_markPascalName profile hb (fun w hw => hwords w hw) Word.pairwise_read hfirst (by omega)
  refine hname.append hfirst hbehind hs ?_
  generalize markPascalName profile buf s.roles _ _ = named
  generalize (Word.read profile buf (isSeparator s.roles) stop start).2 = behind at *
  have htypes := Buffer.le_seek (named.get · ≠ some .nameTypeSeparator) behind stop
  refine marks_markPascalType profile hb (fun w hw => ?_) Word.pairwise_read hbehind hs
  have := hwords w hw
  have := Word.bounds_of_mem_read profile buf hw
  omega

theorem marks_mark (hb : buf.WellFormed) (hle : start ≤ stop) (hs : stop ≤ buf.size)
    (style : Style) : Marks profile buf start stop roles (mark profile buf style roles start stop) := by
  cases style
  case c => exact marks_markC profile hb hle hs
  case pascal => exact marks_markPascal profile hb hle hs

end SourceDocs.Prototype

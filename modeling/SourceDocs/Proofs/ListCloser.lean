import SourceDocs.Proofs.Parameter
import SourceDocs.Proofs.Signature.Words

namespace SourceDocs

namespace Skip

variable {profile : Profile} {buf : Buffer} {angle : Bool} {i j k c : Nat} {closer : Char}
  {outer : List Char}

-- From `i` on, where the brackets of a stack are open, innermost first, the bracket at `c` closes
-- the last one.
inductive Closes (profile : Profile) (buf : Buffer) (angle : Bool) : Nat → List Char → Nat → Prop
  | last {i : Nat} {closer : Char} (hn : opens? buf angle i = none)
    (hc : buf.isChar i closer = true) : Closes profile buf angle i [closer] i
  | inner {i c : Nat} {closer next : Char} {outer : List Char} (hn : opens? buf angle i = none)
    (hc : buf.isChar i closer = true) (h : Closes profile buf angle (i + 1) (next :: outer) c) :
    Closes profile buf angle i (closer :: next :: outer) c
  | opening {i c : Nat} {b closer : Char} {outer : List Char} (ho : opens? buf angle i = some b)
    (h : Closes profile buf angle (i + 1) (b :: closer :: outer) c) :
    Closes profile buf angle i (closer :: outer) c
  | quoted {i j c : Nat} {closer : Char} {outer : List Char} (hn : opens? buf angle i = none)
    (hc : buf.isChar i closer = false) (hq : quoted? profile buf i = some j)
    (h : Closes profile buf angle j (closer :: outer) c) :
    Closes profile buf angle i (closer :: outer) c
  | other {i c : Nat} {closer : Char} {outer : List Char} (hn : opens? buf angle i = none)
    (hc : buf.isChar i closer = false) (hq : quoted? profile buf i = none)
    (h : Closes profile buf angle (i + 1) (closer :: outer) c) :
    Closes profile buf angle i (closer :: outer) c

def BlockCloses (profile : Profile) (buf : Buffer) (angle : Bool) (i c : Nat) : Prop :=
  ∃ closer, opens? buf angle i = some closer ∧ Closes profile buf angle (i + 1) [closer] c

theorem closes_opening {b : Char} (ho : opens? buf angle i = some b) :
    Closes profile buf angle i (closer :: outer) c ↔
      Closes profile buf angle (i + 1) (b :: closer :: outer) c := by
  refine ⟨fun h => ?_, .opening ho⟩
  cases h
  case opening ho' h => exact Option.some.inj (ho.symm.trans ho') ▸ h
  all_goals simp_all

theorem closes_inner {next : Char} (hn : opens? buf angle i = none)
    (hc : buf.isChar i closer = true) :
    Closes profile buf angle i (closer :: next :: outer) c ↔
      Closes profile buf angle (i + 1) (next :: outer) c := by
  refine ⟨fun h => ?_, .inner hn hc⟩
  cases h
  case inner h => exact h
  all_goals simp_all

theorem closes_last (hn : opens? buf angle i = none) (hc : buf.isChar i closer = true) :
    Closes profile buf angle i [closer] c ↔ c = i := by
  refine ⟨fun h => ?mp, ?mpr⟩
  case mpr =>
    rintro rfl
    exact .last hn hc
  cases h
  case last => rfl
  all_goals simp_all

theorem closes_quoted (hn : opens? buf angle i = none) (hc : buf.isChar i closer = false)
    (hq : quoted? profile buf i = some j) :
    Closes profile buf angle i (closer :: outer) c ↔
      Closes profile buf angle j (closer :: outer) c := by
  refine ⟨fun h => ?_, .quoted hn hc hq⟩
  cases h with
  | quoted _ _ hq' h => exact Option.some.inj (hq.symm.trans hq') ▸ h
  | _ => simp_all

theorem closes_other (hn : opens? buf angle i = none) (hc : buf.isChar i closer = false)
    (hq : quoted? profile buf i = none) :
    Closes profile buf angle i (closer :: outer) c ↔
      Closes profile buf angle (i + 1) (closer :: outer) c := by
  refine ⟨fun h => ?_, .other hn hc hq⟩
  cases h
  case other h => exact h
  all_goals simp_all

theorem Closes.bounds {closers : List Char} (h : Closes profile buf angle i closers c) :
    i ≤ c ∧ c < buf.size := by
  induction h
  case last hc => exact ⟨Nat.le_refl _, buf.lt_size_of_isChar hc⟩
  case quoted hq _ hi =>
    have := lt_quoted? profile buf hq
    omega
  all_goals omega

theorem Closes.closeBlocks_eq {closers : List Char} (h : Closes profile buf angle i closers c) :
    closeBlocks profile buf angle i closers = c + 1 := by
  induction h
  case last hn hc => rw [closeBlocks_close (buf.lt_size_of_isChar hc) hn hc, closeBlocks_nil]
  case inner hn hc _ hi => rw [closeBlocks_close (buf.lt_size_of_isChar hc) hn hc, hi]
  case opening ho h hi => rw [closeBlocks_open (by have := h.bounds; omega) ho, hi]
  case quoted hn hc hq h hi =>
    have := lt_quoted? profile buf hq
    rw [closeBlocks_quoted (by have := h.bounds; omega) hn hc hq, hi]
  case other hn hc hq h hi => rw [closeBlocks_other (by have := h.bounds; omega) hn hc hq, hi]

theorem BlockCloses.block?_eq (h : BlockCloses profile buf angle i c) :
    block? profile buf angle i = some (c + 1) := by
  obtain ⟨closer, ho, h⟩ := h
  rw [block?, ho, Option.map_some, h.closeBlocks_eq]

-- A block that ends before the text does is closed.
theorem closes_of_lt {closers : List Char} (hne : closers ≠ [])
    (hlt : closeBlocks profile buf angle i closers < buf.size) :
    Closes profile buf angle i closers (closeBlocks profile buf angle i closers - 1) := by
  fun_induction closeBlocks profile buf angle i closers
  case case1 => exact absurd rfl hne
  case case2 ho ih => exact .opening ho (ih (by simp) hlt)
  case case3 i closer outer _ hn hc ih =>
    cases outer
    case nil =>
      rw [closeBlocks_nil]
      exact .last hn hc
    case cons => exact .inner hn hc (ih (by simp) hlt)
  case case4 hn hc _ hq ih => exact .quoted hn (by simpa using hc) hq (ih hne hlt)
  case case5 hn hc hq ih => exact .other hn (by simpa using hc) hq (ih hne hlt)
  case case6 => omega

theorem blockCloses_of_lt (h : block? profile buf angle i = some (c + 1)) (hc : c + 1 < buf.size) :
    BlockCloses profile buf angle i c := by
  simp only [block?, Option.map_eq_some_iff] at h
  obtain ⟨closer, ho, h⟩ := h
  have hclose : Closes profile buf angle (i + 1) [closer]
      (closeBlocks profile buf angle (i + 1) [closer] - 1) :=
    closes_of_lt (by simp) (h.trans_lt hc)
  rw [h] at hclose
  exact ⟨closer, ho, hclose⟩

-- As for the end of a block: the inner brackets are closed first.
theorem closes_append {cs : List Char} {d : Char} {ds : List Char} :
    Closes profile buf angle i (cs ++ d :: ds) c ↔
      Closes profile buf angle (closeBlocks profile buf angle i cs) (d :: ds) c := by
  fun_induction closeBlocks profile buf angle i cs
  case case1 => rfl
  case case2 ho ih => exact (closes_opening ho).trans ih
  case case3 i closer outer _ hn hc ih =>
    cases outer <;> exact (closes_inner hn hc).trans ih
  case case4 hn hc _ hq ih => exact (closes_quoted hn (by simpa using hc) hq).trans ih
  case case5 hn hc hq ih => exact (closes_other hn (by simpa using hc) hq).trans ih
  case case6 hi =>
    -- Nothing is closed at the end of the text.
    constructor <;>
    · intro h
      have := h.bounds
      omega

theorem Closes.le (hbare : Bare profile buf) (hc : closer ∈ ")]\x7d>".toList)
    (h : Closes profile buf false i [closer] c) (h' : Closes profile buf true i [closer] k) :
    c ≤ k := by
  have hle := closeBlocks_le_of_sublist hbare (i := i) (.refl [closer])
    fun d hd => List.mem_singleton.mp hd ▸ hc
  rw [h.closeBlocks_eq, h'.closeBlocks_eq] at hle
  omega

-- Only at `<` it matters whether angle brackets are brackets.
theorem opens?_angle {b : Option Char} (h : buf.isChar i '<' = false)
    (ho : opens? buf false i = b) : opens? buf true i = b := by
  simp only [Buffer.isChar, decide_eq_false_iff_not] at h
  subst ho
  unfold opens?
  split
  case h_1 b hb =>
    have hne : b ≠ '<' := fun hb' => h (hb' ▸ hb)
    simp [hne]
  case h_2 => rfl

theorem Closes.of_no_angle {closers : List Char} (h : Closes profile buf false i closers c)
    (hn : ∀ k, i ≤ k → k ≤ c → buf.isChar k '<' = false) : Closes profile buf true i closers c := by
  have hle := h.bounds.1
  induction h
  case last hno hc => exact .last (opens?_angle (hn _ (Nat.le_refl _) hle) hno) hc
  case inner hno hc h hi =>
    exact .inner (opens?_angle (hn _ (Nat.le_refl _) hle) hno) hc
      (hi (fun k hk => hn k (by omega)) h.bounds.1)
  case opening ho h hi =>
    exact .opening (opens?_angle (hn _ (Nat.le_refl _) hle) ho)
      (hi (fun k hk => hn k (by omega)) h.bounds.1)
  case quoted hno hc hq h hi =>
    have := lt_quoted? profile buf hq
    exact .quoted (opens?_angle (hn _ (Nat.le_refl _) hle) hno) hc hq
      (hi (fun k hk => hn k (by omega)) h.bounds.1)
  case other hno hc hq h hi =>
    exact .other (opens?_angle (hn _ (Nat.le_refl _) hle) hno) hc hq
      (hi (fun k hk => hn k (by omega)) h.bounds.1)

theorem Uncommented.bare (h : Uncommented profile buf) : Bare profile buf := by
  intro i c hc hi
  have hquote : ∀ c ∈ "()[]\x7b\x7d<>,;".toList, c ≠ '"' ∧ c ≠ '\x27' := by decide
  refine h.quoted?_eq_none fun d hd => ?_
  obtain rfl := Buffer.eq_of_isChar hi (by simpa [Buffer.isChar] using hd)
  exact hquote c hc

-- A comment starts with a character of the text.
theorem Uncommented.of_not_mem {cs : List Char} (hs : ∀ s ∈ profile.starters, IsSymbolic s)
    (hc : ∀ s ∈ profile.starters, ∀ c ∈ s.toList.head?, c ∉ cs) :
    Uncommented profile (.ofChars cs) := by
  have hmatch (i : Nat) {s : String} (h : s ∈ profile.starters) :
      (Buffer.ofChars cs).matchesAt i s = false := by
    rw [Bool.eq_false_iff]
    intro hm
    have ⟨c, hmem, hi⟩ := exists_isChar_of_matchesAt (Buffer.wellFormed_ofChars cs) (hs s h) hm
    exact hc s h c hmem (Buffer.mem_of_isChar hi)
  exact ⟨fun i s h => hmatch i (List.mem_append_left _ h),
    fun i s h => hmatch i (List.mem_append_right _ (List.mem_map_of_mem h))⟩

end Skip

namespace Prototype

open Skip

variable {profile : Profile} {buf : Buffer} {d : Delimited} {closer : Char} {i k c o stop : Nat}

theorem opens?_of_isListSeparator (h : isListSeparator buf i = true) (angle : Bool) :
    opens? buf angle i = none := by
  rcases Bool.or_eq_true .. ▸ h with h | h <;>
    (simp only [Buffer.isChar, decide_eq_true_eq] at h; cases angle <;> simp [opens?, h, Text.closing?])

theorem quoted?_of_isListSeparator (hbare : Bare profile buf) (h : isListSeparator buf i = true) :
    quoted? profile buf i = none := by
  rcases Bool.or_eq_true .. ▸ h with h | h
  case inl => exact hbare i ',' (by decide) h
  case inr => exact hbare i ';' (by decide) h

theorem not_isChar_of_isListSeparator (h : isListSeparator buf i = true)
    (hc : closer ∈ ")]\x7d>".toList) : buf.isChar i closer = false := by
  have hne : ∀ c ∈ ")]\x7d>".toList, c ≠ ',' ∧ c ≠ ';' := by decide
  rw [Bool.eq_false_iff]
  intro hi
  rcases Bool.or_eq_true .. ▸ h with h | h
  case inl => exact (hne closer hc).1 (Buffer.eq_of_isChar hi h)
  case inr => exact (hne closer hc).2 (Buffer.eq_of_isChar hi h)

-- The separators are other tokens to the skip of a block, and everything else is skipped alike.
theorem listSeparators_closes (hbare : Bare profile buf) (hc : closer ∈ ")]\x7d>".toList) :
    (listSeparators profile buf closer i).2 = some c ↔ Closes profile buf true i [closer] c := by
  fun_induction listSeparators profile buf closer i
  case case1 i _ hs _ ih =>
    have hn := opens?_of_isListSeparator hs true
    have hq := quoted?_of_isListSeparator hbare hs
    rw [closes_other hn (not_isChar_of_isListSeparator hs hc) hq]
    exact ih
  case case2 i _ _ hi =>
    have hn : opens? buf true i = none := by
      cases ho : opens? buf true i
      case none => rfl
      case some => simp [not_isChar_closer ho hc] at hi
    rw [closes_last hn hi]
    exact Option.some_inj.trans eq_comm
  case case3 i _ _ hi j he ih =>
    have hi : buf.isChar i closer = false := by simpa using hi
    rcases Option.or_eq_some_iff.mp he with hq | ⟨hq, hj⟩
    case inl =>
      have hn : opens? buf true i = none := by
        cases ho : opens? buf true i
        case none => rfl
        case some => cases (hbare.of_opens? ho).symm.trans hq
      rw [closes_quoted hn hi hq]
      exact ih
    case inr =>
      -- The list passes over the block as a whole, and the skip closes it before the list.
      simp only [block?, Option.map_eq_some_iff] at hj
      obtain ⟨b, ho, rfl⟩ := hj
      rw [closes_opening ho, ih]
      exact closes_append.symm
  case case4 i _ _ hi he ih =>
    obtain ⟨hq, hn⟩ := Option.or_eq_none_iff.mp he
    rw [block?, Option.map_eq_none_iff] at hn
    rw [closes_other hn (by simpa using hi) hq]
    exact ih
  case case5 =>
    constructor <;> intro h
    case mp => cases h
    case mpr =>
      have := h.bounds
      omega

theorem get_mark_closer (hk : k < buf.size) (h : d.closer = some k) :
    (d.mark buf).get k = some .endOfParameters := by
  unfold Delimited.mark
  simp only [h]
  rw [Roles.get_set, if_pos ⟨rfl, by simpa [Roles.size_foldl_set, Roles.empty] using hk⟩]

-- The list marks its brackets and its separators, and nothing else as an end.
theorem closer_eq_of_get_mark (h : (d.mark buf).get k = some .endOfParameters) :
    d.closer = some k := by
  by_contra hc
  unfold Delimited.mark at h
  have hset : (d.separators.foldl (fun r i => r.set i (some .parameterSeparator))
      ((Roles.empty buf).set d.opener (some .startOfParameters))).get k =
        some .endOfParameters := by
    cases hd : d.closer
    case none => simpa only [hd] using h
    case some j =>
      simp only [hd] at h
      rwa [Roles.get_set, if_neg] at h
      rintro ⟨rfl, -⟩
      exact hc hd
  have hset := get_foldl_set_ne (by decide) hset
  rw [Roles.get_set, Roles.get_empty] at hset
  split at hset <;> cases hset

theorem opener_lt_closer (hl : IsList profile buf closer d) (hc : d.closer = some k) :
    d.opener < k := by
  have ⟨first, rest, hcons⟩ := sections_eq_cons k d.separators
  have hmem : (d.opener + 1, first) ∈ sections (d.opener + 1) k d.separators := by simp [hcons]
  have hle := (hl.section_of_mem hc hmem).le
  have hstop := (hl.ordered hc).le_stop _ hmem
  dsimp only at hle hstop
  omega

-- The parameters stand before the closing bracket, and what else is marked stands around the list.
theorem end_iff_closer (hb : buf.WellFormed) (hl : IsList profile buf closer d) :
    (ofDelimited profile buf d).roles.get k = some .endOfParameters ↔ d.closer = some k := by
  obtain ⟨r, hafter, hbefore⟩ := exists_markAround profile hb hl.isEnd_opener
    ((d.parameters buf).foldl (fun roles r => mark profile buf
      ((listStyle? profile buf (d.parameters buf)).getD .c) roles r.1 r.2) (d.mark buf))
  constructor
  case mp =>
    intro h
    exact closer_eq_of_get_mark (no_end_marks hb (fun r hr => hl.isEnd_parameter hr)
      (hafter.no_end (hbefore.no_end h)))
  case mpr =>
    intro hc
    -- What is marked after the list lies before its opener, between its brackets or behind it.
    have hlast : d.stop buf = k := by rw [Delimited.stop, hc, Option.getD_some]
    have hlt := opener_lt_closer hl hc
    have hmarks (style : Style) : Roles.SameOutside profile buf 0 k (d.mark buf)
        ((d.parameters buf).foldl (fun roles r => mark profile buf style roles r.1 r.2)
          (d.mark buf)) := by
      refine sameOutside_marks hb (fun r hr => ?_) _
      obtain ⟨part, hpart, -, htrimmed⟩ := hl.exists_part hc hr
      exact ⟨hl.isEnd_parameter hr, Nat.zero_le _,
        htrimmed.le_stop.trans ((hl.ordered hc).le_stop part hpart)⟩
    have hget := hbefore.get_eq k (.inr (by omega))
    rw [hafter.get_eq k (.inl (by omega)), (hmarks _).get_eq k (.inr (Nat.le_refl _)),
      get_mark_closer (buf.lt_size_of_isChar (hl.isChar_closer hc)) hc] at hget
    exact hget

theorem opens?_of_listOpening? {b : Char} (h : listOpening? profile buf i = some (o, b))
    (angle : Bool) : opens? buf angle o = some b := by
  have hopens {x y : Char} (hx : buf.isChar o x = true) (hy : x ≠ '<')
      (hb : Text.closing? x = some y) : opens? buf angle o = some y := by
    simp only [Buffer.isChar, decide_eq_true_eq] at hx
    simp [opens?, hx, hy, hb]
  fun_induction listOpening? profile buf i
  case case1 ih => exact ih h
  case case2 hc =>
    cases h
    exact hopens hc (by decide) rfl
  case case3 hc =>
    cases h
    exact hopens (Bool.and_eq_true .. ▸ hc).1 (by decide) rfl
  case case4 hc =>
    cases h
    exact hopens hc (by decide) rfl
  case case5 ih => exact ih h
  case case6 => cases h

theorem exists_of_list {text : List Char} (h : (ofText profile text).list = some (o, stop)) :
    ∃ d closer, ofText profile text = ofDelimited profile (.ofChars text) d ∧ d.opener = o ∧
      IsList profile (.ofChars text) closer d ∧
        ∀ angle, opens? (.ofChars text) angle o = some closer := by
  cases hd : delimit? profile (.ofChars text)
  case none => simp [ofText, hd] at h
  case some d =>
    have htext : ofText profile text = ofDelimited profile (.ofChars text) d := by
      rw [ofText]
      simp only [hd]
    rw [htext] at h
    obtain ⟨rfl, -⟩ := Prod.mk.inj (Option.some.inj h)
    simp only [delimit?, Option.bind_eq_bind, Option.bind_eq_some_iff] at hd
    obtain ⟨⟨opener, closer⟩, ho, hd⟩ := hd
    cases hd
    obtain ⟨hopener, hcloser⟩ := brackets_of_listOpening? ho
    exact ⟨_, closer, htext, rfl, ⟨hopener, hcloser, rfl⟩, opens?_of_listOpening? ho⟩

-- Where the bracket that opens the parameter list starts a block that is closed at `c` when angle
-- brackets are no brackets, the list never ends before `c`. It ends there, behind all parameters,
-- exactly if the block is closed at `c` with angle brackets too, as it is when none stands in it.
theorem list_ends_with_block_iff (profile : Profile) (text : List Char)
    (hu : Uncommented profile (.ofChars text))
    (hl : (ofText profile text).list = some (o, stop))
    (hc : BlockCloses profile (.ofChars text) false o c) :
    ((ofText profile text).roles.get c = some .endOfParameters ↔
      BlockCloses profile (.ofChars text) true o c) ∧
    ((ofText profile text).roles.get c = some .endOfParameters →
      ∀ r ∈ (ofText profile text).parameters, r.2 ≤ c) ∧
    (∀ k, (ofText profile text).roles.get k = some .endOfParameters → c ≤ k) ∧
    ((∀ k, o < k → k ≤ c → (Buffer.ofChars text).isChar k '<' = false) →
      (ofText profile text).roles.get c = some .endOfParameters) := by
  have hb := Buffer.wellFormed_ofChars text
  obtain ⟨d, closer, htext, rfl, hlist, ho⟩ := exists_of_list hl
  obtain ⟨closer', ho', hclose⟩ := hc
  obtain rfl := Option.some.inj ((ho false).symm.trans ho')
  have ⟨_, _, _, hcloser⟩ := exists_of_opens? ho'
  rw [htext]
  have hend (k : Nat) :
      (ofDelimited profile (.ofChars text) d).roles.get k = some .endOfParameters ↔
        Closes profile (.ofChars text) true (d.opener + 1) [closer] k := by
    rw [end_iff_closer hb hlist, ← listSeparators_closes hu.bare hcloser, hlist.separators]
  refine ⟨(hend c).trans ⟨fun h => ⟨closer, ho true, h⟩, ?closer⟩, fun h r hr => ?parameters,
    fun k hk => ?le, fun h => ?no_angle⟩
  case closer =>
    rintro ⟨b, hb, h⟩
    exact Option.some.inj ((ho true).symm.trans hb) ▸ h
  case parameters =>
    have hc := (end_iff_closer hb hlist).mp h
    obtain ⟨part, hpart, -, htrimmed⟩ := hlist.exists_part hc hr
    exact htrimmed.le_stop.trans ((hlist.ordered hc).le_stop part hpart)
  case le => exact hclose.le hu.bare hcloser ((hend k).mp hk)
  case no_angle => exact (hend c).mpr (hclose.of_no_angle fun k hk => h k (by omega))

-- The shift has angle brackets that are closed by none, but it stands in a string.
theorem list_ends_with_block_nested :
    Uncommented .builtinC (.ofChars "f(map<a, b> x, c = (\"<<\"));".toList) ∧
    (ofText .builtinC "f(map<a, b> x, c = (\"<<\"));".toList).list = some (1, 23) ∧
    BlockCloses .builtinC (.ofChars "f(map<a, b> x, c = (\"<<\"));".toList) false 1 23 ∧
    (ofText .builtinC "f(map<a, b> x, c = (\"<<\"));".toList).roles.get 23 =
      some .endOfParameters := by
  have hu : Uncommented .builtinC (.ofChars "f(map<a, b> x, c = (\"<<\"));".toList) :=
    .of_not_mem (by decide) (by decide)
  have hl : (ofText .builtinC "f(map<a, b> x, c = (\"<<\"));".toList).list = some (1, 23) := by
    decide +kernel
  have hplain : BlockCloses .builtinC (.ofChars "f(map<a, b> x, c = (\"<<\"));".toList) false 1 23 :=
    blockCloses_of_lt (by decide +kernel) (by decide +kernel)
  have hangle : BlockCloses .builtinC (.ofChars "f(map<a, b> x, c = (\"<<\"));".toList) true 1 23 :=
    blockCloses_of_lt (by decide +kernel) (by decide +kernel)
  have ⟨hiff, _⟩ := list_ends_with_block_iff .builtinC _ hu hl hplain
  exact ⟨hu, hl, hplain, hiff.mpr hangle⟩

-- The comparison opens a block that nothing closes, and so the list has no end.
theorem comparison_leaves_list_open :
    Uncommented .builtinC (.ofChars "f(a = b < c);".toList) ∧
    (ofText .builtinC "f(a = b < c);".toList).list = some (1, 13) ∧
    BlockCloses .builtinC (.ofChars "f(a = b < c);".toList) false 1 11 ∧
    (ofText .builtinC "f(a = b < c);".toList).roles.get 11 ≠ some .endOfParameters ∧
    ∃ r ∈ (ofText .builtinC "f(a = b < c);".toList).parameters, 11 < r.2 := by
  refine ⟨.of_not_mem (by decide) (by decide), by decide +kernel, ?_, by decide +kernel,
    by decide +kernel⟩
  exact blockCloses_of_lt (by decide +kernel) (by decide +kernel)

end Prototype
end SourceDocs

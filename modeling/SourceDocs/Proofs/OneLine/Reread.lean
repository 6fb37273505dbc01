import SourceDocs.Proofs.OneLine.Read

namespace SourceDocs.Chars

open Prototype

-- No opener of a comment is split between the two texts so that the closer of a comment is in its
-- first part, not at the very start.
def Unsplit (profile : Profile) (inside beyond : List Char) : Prop :=
  ∀ s ∈ profile.blockComments, ∀ front back, s.opener.toList = front ++ back → back ≠ [] →
    front <:+ inside → back <+: beyond → ∀ t ∈ profile.blockComments,
      ¬t.closer.toList <:+: front.tail

variable {profile : Profile} {c : Char} {cs rest : List Char} {closer : String}
  {outer closers : List String}

theorem Unsplit.of_suffix {inside inside' beyond : List Char} (h : Unsplit profile inside beyond)
    (hs : inside' <:+ inside) : Unsplit profile inside' beyond :=
  fun s hm front back heq hne hf => h s hm front back heq hne (hf.trans hs)

-- Where no opener has a closer in it, there is nothing to split.
theorem Unsplit.of_openers (h : ∀ s ∈ profile.blockComments, ∀ t ∈ profile.blockComments,
    ¬t.closer.toList <:+: s.opener.toList.tail) (inside beyond : List Char) :
    Unsplit profile inside beyond := by
  intro s hs front back heq _ _ _ t ht hin
  refine h s hs t ht (hin.trans ?_)
  rw [heq]
  cases front
  case nil => exact List.nil_infix
  case cons c front => exact (List.prefix_append ..).isInfix

theorem closed_nil : closed profile cs [] = cs := by
  rw [closed]

theorem closed_end (closers : List String) : closed profile [] closers = [] := by
  cases closers <;> rw [closed]

theorem closed_closer (hc : IsSymbolic closer) :
    closed profile (closer.toList ++ rest) (closer :: outer) = closed profile rest outer := by
  obtain ⟨d, ds, hd⟩ := List.exists_cons_of_ne_nil hc.1
  rw [hd, List.cons_append, closed, if_pos, behind, hd, List.length_cons, Nat.add_sub_cancel,
    List.drop_left]
  rw [List.isPrefixOf_iff_prefix, hd]
  exact List.prefix_append ..

theorem closed_opener {s : BlockSymbols} (hs : IsSymbolic s.opener)
    (hn : ¬closer.toList <+: s.opener.toList ++ rest)
    (ho : nested? profile (s.opener.toList ++ rest) = some s) :
    closed profile (s.opener.toList ++ rest) (closer :: outer) =
      closed profile rest (s.closer :: closer :: outer) := by
  obtain ⟨d, ds, hd⟩ := List.exists_cons_of_ne_nil hs.1
  rw [hd, List.cons_append] at hn ho ⊢
  rw [closed, if_neg (by rwa [List.isPrefixOf_iff_prefix]), ho]
  simp only
  rw [behind, hd, List.length_cons, Nat.add_sub_cancel, List.drop_left]

theorem closed_other (hn : ¬closer.toList <+: c :: rest) (ho : nested? profile (c :: rest) = none) :
    closed profile (c :: rest) (closer :: outer) = closed profile rest (closer :: outer) := by
  rw [closed, if_neg (by rwa [List.isPrefixOf_iff_prefix]), ho]

theorem mem_of_nested? {s : BlockSymbols} (h : nested? profile cs = some s) :
    s ∈ profile.blockComments ∧ s.opener.toList <+: cs := by
  unfold nested? at h
  split at h
  case isFalse => cases h
  case isTrue =>
    have := List.find?_some h
    exact ⟨List.mem_of_find?_eq_some h, by simpa [List.isPrefixOf_iff_prefix] using this⟩

-- There is no room for one of the closers.
theorem closed_of_length_lt (hc : closer ∈ closers) (h : cs.length < closer.toList.length) :
    closed profile cs closers = [] := by
  fun_induction closed profile cs closers
  case case1 => cases hc
  case case2 => rfl
  case case3 top outer c rest hm ih =>
    rw [List.isPrefixOf_iff_prefix] at hm
    have hlen := hm.length_le
    have hb := (behind_suffix top rest).length_le
    rw [List.length_cons] at h
    rcases List.mem_cons.mp hc with rfl | hc
    case inl =>
      rw [List.length_cons] at hlen
      omega
    case inr => exact ih hc (by omega)
  case case4 top outer c rest hm s ho ih =>
    have hb := (behind_suffix s.opener rest).length_le
    rw [List.length_cons] at h
    exact ih (.tail _ hc) (by omega)
  case case5 ih =>
    rw [List.length_cons] at h
    exact ih hc (by omega)

def IsCloser (profile : Profile) (closer : String) : Prop :=
  ∃ s ∈ profile.blockComments, s.closer = closer

theorem closed_of_no_closer (hc : ∀ s ∈ closers, IsCloser profile s) (hne : closers ≠ [])
    (h : ∀ t ∈ profile.blockComments, ¬t.closer.toList <:+: cs) :
    closed profile cs closers = [] := by
  fun_induction closed profile cs closers
  case case1 => exact absurd rfl hne
  case case2 => rfl
  case case3 top outer c rest hm ih =>
    obtain ⟨s, hs, rfl⟩ := hc top (.head _)
    exact absurd (List.isPrefixOf_iff_prefix.mp hm).isInfix (h s hs)
  case case4 top outer c rest hm s ho ih =>
    refine ih (List.forall_mem_cons.mpr ⟨⟨s, (mem_of_nested? ho).1, rfl⟩, hc⟩) (by simp) ?_
    intro t ht hin
    exact h t ht ((hin.trans (behind_suffix ..).isInfix).trans (List.suffix_cons ..).isInfix)
  case case5 ih =>
    exact ih hc hne fun t ht hin => h t ht (hin.trans (List.suffix_cons ..).isInfix)

theorem closed_of_no_closer_tail (hc : ∀ s ∈ closer :: outer, IsCloser profile s)
    (hn : ¬closer.toList <+: c :: rest)
    (h : ∀ t ∈ profile.blockComments, ¬t.closer.toList <:+: rest) :
    closed profile (c :: rest) (closer :: outer) = [] := by
  rw [closed, if_neg (by rwa [List.isPrefixOf_iff_prefix])]
  split
  case h_1 s ho =>
    refine closed_of_no_closer (List.forall_mem_cons.mpr ⟨⟨s, (mem_of_nested? ho).1, rfl⟩, hc⟩)
      (by simp) fun t ht hin => h t ht (hin.trans (behind_suffix ..).isInfix)
  case h_2 => exact closed_of_no_closer hc (by simp) h

section Leads

variable {xs ys : List Char} {s : BlockSymbols}

theorem blockSymbols?_none_of_leads (hp : profile.Punctuated) (h : Leads ys xs)
    (hs : blockSymbols? profile xs = none) : blockSymbols? profile ys = none := by
  rw [blockSymbols?, List.find?_eq_none] at hs ⊢
  simp only [List.isPrefixOf_iff_prefix] at hs ⊢
  exact fun s hm hpre => hs s hm (h _ (hp.block hm).1.solid hpre)

theorem blockSymbols?_some_of_leads (hp : profile.Punctuated) (h : Leads ys xs)
    (hs : blockSymbols? profile xs = some s) (hpre : s.opener.toList <+: ys) :
    blockSymbols? profile ys = some s := by
  rw [blockSymbols?, List.find?_eq_some_iff_append] at hs ⊢
  obtain ⟨-, before, after, hsplit, hn⟩ := hs
  refine ⟨by rwa [List.isPrefixOf_iff_prefix], before, after, hsplit, fun t ht => ?_⟩
  have hm : t ∈ profile.blockComments := hsplit ▸ List.mem_append_left _ ht
  have := hn t ht
  simp only [Bool.not_eq_true', ← Bool.not_eq_true, List.isPrefixOf_iff_prefix] at this ⊢
  exact fun hpre => this (h _ (hp.block hm).1.solid hpre)

theorem nested?_none_of_leads (hp : profile.Punctuated) (h : Leads ys xs)
    (hs : nested? profile xs = none) : nested? profile ys = none := by
  unfold nested? at hs ⊢
  split
  case isTrue hnest =>
    rw [if_pos hnest] at hs
    exact blockSymbols?_none_of_leads hp h hs
  case isFalse => rfl

theorem nested?_some_of_leads (hp : profile.Punctuated) (h : Leads ys xs)
    (hs : nested? profile xs = some s) (hpre : s.opener.toList <+: ys) :
    nested? profile ys = some s := by
  unfold nested? at hs ⊢
  split
  case isTrue hnest =>
    rw [if_pos hnest] at hs
    exact blockSymbols?_some_of_leads hp h hs hpre
  case isFalse hnest =>
    rw [if_neg hnest] at hs
    cases hs

end Leads

theorem length_collapse_le (cs : List Char) : (collapse cs).length ≤ cs.length := by
  fun_induction collapse cs <;> simp only [List.length_nil, List.length_cons] <;> omega

-- A character that is read becomes one character, or it is white space before more of it.
theorem collapse_cons_or (c : Char) (cs : List Char) :
    collapse (c :: cs) = collapse cs ∨ ∃ d, collapse (c :: cs) = d :: collapse cs := by
  rw [collapse]
  split
  case isTrue => exact .inr ⟨_, rfl⟩
  case isFalse =>
    split
    case isTrue => exact .inl rfl
    case isFalse => exact .inr ⟨_, rfl⟩

theorem IsCloser.isPunctuation (hp : profile.Punctuated) (h : IsCloser profile closer) :
    IsPunctuation closer := by
  obtain ⟨s, hs, rfl⟩ := h
  exact (hp.block hs).2

theorem behind_eq {s : String} (hs : s.toList ≠ []) {tail : List Char}
    (h : c :: rest = s.toList ++ tail) : behind s rest = tail := by
  obtain ⟨d, ds, hd⟩ := List.exists_cons_of_ne_nil hs
  rw [hd, List.cons_append] at h
  rw [(List.cons.inj h).2, behind, hd, List.length_cons, Nat.add_sub_cancel, List.drop_left]

theorem length_behind_lt {s : String} {inside back gone : List Char}
    (h : inside ++ back = c :: rest) (hs : s.toList = inside ++ gone) (hne : gone ≠ [])
    (hback : gone <+: back) : (behind s rest).length < back.length := by
  have hpos := List.length_pos_iff.mpr hne
  have hlen := congrArg List.length h
  have hle := hback.length_le
  rw [behind, List.length_drop, hs]
  simp only [List.length_append, List.length_cons] at hlen ⊢
  omega

-- Where `back` begins in the middle of a symbol, no comment ends.
theorem closed_behind_ne {s : String} {inside back gone : List Char}
    (h : inside ++ back = c :: rest) (hs : s.toList = inside ++ gone) (hne : gone ≠ [])
    (hback : gone <+: back) (closers : List String) :
    closed profile (behind s rest) closers ≠ back := by
  intro heq
  have hlt := length_behind_lt h hs hne hback
  have hle : (closed profile (behind s rest) closers).length ≤ (behind s rest).length :=
    (closed_suffix closers).length_le
  rw [heq] at hle
  omega

theorem closed_split_closer {inside gone : List Char} (h : closer.toList = inside ++ gone)
    (hne : gone ≠ []) : closed profile (collapse inside) (closer :: outer) = [] := by
  refine closed_of_length_lt (.head _) ?_
  have hle := length_collapse_le inside
  have hpos := List.length_pos_iff.mpr hne
  rw [h, List.length_append]
  omega

theorem closed_split_opener (hp : profile.Punctuated) {inside back gone : List Char}
    (hc : ∀ t ∈ closer :: outer, IsCloser profile t) (hu : Unsplit profile inside back)
    {s : BlockSymbols} (hs : s ∈ profile.blockComments) (h : s.opener.toList = inside ++ gone)
    (hne : gone ≠ []) (hback : gone <+: back) (hn : ¬closer.toList <+: collapse inside) :
    closed profile (collapse inside) (closer :: outer) = [] := by
  have hsolid : Solid inside := (hp.block hs).1.solid.subset (by simp [h])
  rw [hsolid.collapse_eq] at hn ⊢
  cases inside
  case nil => exact closed_end _
  case cons d inside =>
    exact closed_of_no_closer_tail hc hn (hu s hs _ _ h hne (List.suffix_rfl) hback)

-- A symbol that starts a text is in its first part, or it has that part at its start.
theorem prefix_append_cases {xs ys zs : List Char} (h : xs <+: ys ++ zs) :
    (∃ ys', ys = xs ++ ys') ∨ ∃ back, xs = ys ++ back ∧ back ≠ [] ∧ back <+: zs := by
  rcases Nat.lt_or_ge ys.length xs.length with hlt | hle
  case inl =>
    obtain ⟨back, rfl⟩ : ys <+: xs :=
      List.prefix_of_prefix_length_le (List.prefix_append ..) h (Nat.le_of_lt hlt)
    refine .inr ⟨back, rfl, ?_, (List.prefix_append_right_inj ys).mp h⟩
    rintro rfl
    simp at hlt
  case inr =>
    obtain ⟨ys', h⟩ := List.prefix_of_prefix_length_le h (List.prefix_append ..) hle
    exact .inl ⟨ys', h.symm⟩

-- When a comment ends where `back` begins, or goes on at least to there, so does the comment with
-- its white space collapsed. In the second case nothing follows any more.
theorem closed_collapse (hp : profile.Punctuated) {inside back new : List Char}
    (hc : ∀ s ∈ closers, IsCloser profile s) (hlead : Leads new back)
    (hlen : (closed profile (inside ++ back) closers).length ≤ back.length)
    (hend : closed profile (inside ++ back) closers = back ∧ (back = [] → new = []) ∨
      new = [] ∧ Unsplit profile inside back) :
    closed profile (collapse inside ++ new) closers = new := by
  generalize hcs : inside ++ back = cs at hlen hend
  fun_induction closed profile cs closers generalizing inside
  case case1 cs =>
    have hnil : inside = [] := by
      rw [← hcs, List.length_append] at hlen
      exact List.length_eq_zero_iff.mp (by omega)
    rw [hnil, closed_nil]
    rfl
  case case2 =>
    obtain ⟨rfl, rfl⟩ := List.append_eq_nil_iff.mp hcs
    obtain rfl : new = [] := hend.elim (fun h => h.2 rfl) (·.1)
    exact closed_end _
  case case3 closer outer c rest hm ih =>
    rw [List.isPrefixOf_iff_prefix, ← hcs] at hm
    have hcl := (hc closer (.head _)).isPunctuation hp
    have hc : ∀ s ∈ outer, IsCloser profile s := fun s hs => hc s (.tail _ hs)
    rcases prefix_append_cases hm with ⟨inside, rfl⟩ | ⟨gone, hgone, hne, hback⟩
    case inl =>
      rw [List.append_assoc] at hcs
      rw [collapse_append_left hcl.solid, List.append_assoc, closed_closer hcl.isSymbolic]
      refine ih hc (behind_eq hcl.1 hcs.symm).symm hlen (hend.imp_right fun h => ⟨h.1, ?_⟩)
      exact h.2.of_suffix (List.suffix_append ..)
    case inr =>
      obtain ⟨rfl, -⟩ := hend.resolve_left fun h => closed_behind_ne hcs hgone hne hback _ h.1
      rw [List.append_nil]
      exact closed_split_closer hgone hne
  case case4 closer outer c rest hm s ho ih =>
    have hm : ¬closer.toList <+: inside ++ back := by rwa [hcs, ← List.isPrefixOf_iff_prefix]
    have hnew : ¬closer.toList <+: collapse inside ++ new := fun h =>
      hm (hlead.collapse inside _ ((hc closer (.head _)).isPunctuation hp).solid h)
    obtain ⟨hs, hpre⟩ := mem_of_nested? ho
    have hopen := (hp.block hs).1
    have hc' : ∀ t ∈ s.closer :: closer :: outer, IsCloser profile t :=
      List.forall_mem_cons.mpr ⟨⟨s, hs, rfl⟩, hc⟩
    rw [← hcs] at hpre ho
    rcases prefix_append_cases hpre with ⟨inside, rfl⟩ | ⟨gone, hgone, hne, hback⟩
    case inl =>
      have ho := nested?_some_of_leads hp (hlead.collapse _) ho
      rw [List.append_assoc] at hcs
      rw [collapse_append_left hopen.solid, List.append_assoc] at hnew ho ⊢
      rw [closed_opener hopen.isSymbolic hnew (ho (List.prefix_append ..))]
      refine ih hc' (behind_eq hopen.1 hcs.symm).symm hlen (hend.imp_right fun h => ⟨h.1, ?_⟩)
      exact h.2.of_suffix (List.suffix_append ..)
    case inr =>
      obtain ⟨rfl, hu⟩ := hend.resolve_left fun h => closed_behind_ne hcs hgone hne hback _ h.1
      rw [List.append_nil] at hnew ⊢
      exact closed_split_opener hp hc hu hs hgone hne hback hnew
  case case5 closer outer c rest hm ho ih =>
    have hcl := (hc closer (.head _)).isPunctuation hp
    have hm : ¬closer.toList <+: inside ++ back := by rwa [hcs, ← List.isPrefixOf_iff_prefix]
    have hnew : ¬closer.toList <+: collapse inside ++ new := fun h =>
      hm (hlead.collapse inside _ hcl.solid h)
    have hopen := nested?_none_of_leads hp (hlead.collapse inside) (hcs ▸ ho)
    have hv : (closed profile rest (closer :: outer)).length ≤ rest.length :=
      (closed_suffix _).length_le
    cases inside
    case nil =>
      obtain ⟨rfl, -⟩ := hend.resolve_left fun h => by
        rw [h.1, show back = c :: rest from hcs, List.length_cons] at hv
        omega
      exact closed_end _
    case cons d inside =>
      obtain ⟨rfl, hrest⟩ := List.cons.inj hcs
      have ih := ih hc hrest hlen <| hend.imp_right fun h =>
        ⟨h.1, h.2.of_suffix (List.suffix_cons ..)⟩
      rcases collapse_cons_or d inside with heq | ⟨e, heq⟩
      case inl => rwa [heq]
      case inr =>
        rw [heq, List.cons_append] at hnew hopen ⊢
        rw [closed_other hnew hopen, ih]

section Strings

variable {quote : Char} {inside back new front : List Char}

theorem closedString_nil : closedString quote [] = [] := by
  rw [closedString]

-- A string that has been closed is closed whatever follows it.
theorem closedString_append (h : closedString quote (inside ++ back) = back)
    (hnew : back = [] → new = []) : closedString quote (inside ++ new) = new := by
  generalize hcs : inside ++ back = cs at h
  fun_induction closedString quote cs generalizing inside
  case case1 =>
    obtain ⟨rfl, rfl⟩ := List.append_eq_nil_iff.mp hcs
    rw [hnew rfl, List.append_nil, closedString_nil]
  case case2 rest =>
    have hlen := congrArg List.length hcs
    rw [h, List.length_append, List.length_cons] at hlen
    obtain ⟨d, rfl⟩ := List.length_eq_one_iff.mp (show inside.length = 1 by omega)
    obtain ⟨rfl, -⟩ := List.cons.inj hcs
    rw [List.singleton_append, closedString, if_pos rfl]
  case case3 rest hne ih =>
    have hle : (closedString quote rest.tail).length ≤ rest.tail.length :=
      closedString_suffix.length_le
    rw [h, List.length_tail] at hle
    cases inside
    case nil =>
      rw [show back = '\\' :: rest from hcs, List.length_cons] at hle
      omega
    case cons d inside =>
      obtain ⟨rfl, hrest⟩ := List.cons.inj hcs
      rw [List.cons_append, closedString, if_neg hne, if_pos rfl]
      cases inside
      case nil =>
        -- What is escaped would be the end of the string.
        have hrest : back = rest := hrest
        obtain rfl : back = [] := List.length_eq_zero_iff.mp (by rw [← hrest] at hle; omega)
        rw [hnew rfl, List.append_nil, List.tail_nil, closedString_nil]
      case cons e inside =>
        refine ih ?_ h
        rw [← hrest]
        rfl
  case case4 c rest hne hslash ih =>
    have hle : (closedString quote rest).length ≤ rest.length := closedString_suffix.length_le
    rw [h] at hle
    cases inside
    case nil =>
      rw [show back = c :: rest from hcs, List.length_cons] at hle
      omega
    case cons d inside =>
      obtain ⟨rfl, hrest⟩ := List.cons.inj hcs
      rw [List.cons_append, closedString, if_neg hne, if_neg hslash]
      exact ih hrest h

-- A string that has been closed at the end or later is not closed before.
theorem closedString_of_start (h : (closedString quote (inside ++ back)).length ≤ back.length)
    (hf : front <+: inside) : closedString quote front = [] := by
  generalize hcs : inside ++ back = cs at h
  cases front
  case nil => exact closedString_nil
  case cons d front =>
  obtain ⟨more, rfl⟩ := hf
  fun_induction closedString quote cs generalizing d front
  case case1 => simp at hcs
  case case2 rest =>
    obtain ⟨rfl, hrest⟩ := List.cons.inj hcs
    rw [closedString, if_pos rfl, ← List.length_eq_zero_iff]
    have hlen := congrArg List.length hrest
    simp only [List.append_eq, List.length_append] at hlen
    omega
  case case3 rest hne ih =>
    obtain ⟨rfl, hrest⟩ := List.cons.inj hcs
    rw [closedString, if_neg hne, if_pos rfl]
    rcases front with _ | ⟨e, _ | ⟨g, front⟩⟩
    · exact closedString_nil
    · exact closedString_nil
    · exact ih h g front (by rw [← hrest]; rfl)
  case case4 c rest hne hslash ih =>
    obtain ⟨rfl, hrest⟩ := List.cons.inj hcs
    rw [closedString, if_neg hne, if_neg hslash]
    cases front
    case nil => exact closedString_nil
    case cons e front => exact ih h e front hrest

end Strings

section Parts

variable {inside back new front : List Char}

theorem read_gap (h : isGap profile c = true) : read profile c cs = (.gap, cs) := by
  rw [read, if_pos h]

theorem read_eq_comment : read profile c cs = (.comment, rest) ↔
    isGap profile c = false ∧ ∃ s, blockSymbols? profile (c :: cs) = some s ∧
      closed profile (behind s.opener cs) [s.closer] = rest := by
  unfold read
  cases isGap profile c
  case true => simp
  case false =>
    cases blockSymbols? profile (c :: cs)
    case some s => simp
    case none => cases lineSymbol? profile (c :: cs) <;> simp

theorem read_eq_copied : read profile c cs = (.copied, rest) ↔
    isGap profile c = false ∧ blockSymbols? profile (c :: cs) = none ∧
      lineSymbol? profile (c :: cs) = none ∧
      (if c = '"' ∨ c = '\x27' then closedString c cs else cs) = rest := by
  unfold read
  cases isGap profile c
  case true => simp
  case false =>
    cases blockSymbols? profile (c :: cs)
    case some s => simp
    case none => cases lineSymbol? profile (c :: cs) <;> simp

theorem lineSymbol?_none_of_leads (hp : profile.Punctuated) {xs ys : List Char} (h : Leads ys xs)
    (hs : lineSymbol? profile xs = none) : lineSymbol? profile ys = none := by
  rw [lineSymbol?, List.find?_eq_none] at hs ⊢
  simp only [List.isPrefixOf_iff_prefix] at hs ⊢
  exact fun s hm hpre => hs s hm (h _ (hp.line hm).solid hpre)

theorem solid_of_blockSymbols? (hp : profile.Punctuated) {s : BlockSymbols}
    (h : blockSymbols? profile (c :: cs) = some s) : Unicode.isWhiteSpace c = false := by
  have ho := (hp.block (List.mem_of_find?_eq_some h)).1
  have hpre : s.opener.toList <+: c :: cs := by
    simpa [List.isPrefixOf_iff_prefix] using List.find?_some h
  rcases List.prefix_cons_iff.mp hpre with hnil | ⟨tail, htail, -⟩
  case inl => exact absurd hnil ho.1
  case inr => exact ho.solid c (by simp [htail])

-- A comment that starts and ends with symbols of comments is read again once its white space is
-- collapsed, even if it was cut off at its end.
theorem read_collapse (hp : profile.Punctuated) (hlead : Leads new back)
    (h : read profile c (inside ++ back) = (.comment, rest)) (hlen : rest.length ≤ back.length)
    (hend : rest = back ∧ (back = [] → new = []) ∨ new = [] ∧ Unsplit profile (c :: inside) back)
    (hopens : ∃ s ∈ profile.blockComments, s.opener.toList <+: c :: inside) :
    read profile c (collapse inside ++ new) = (.comment, new) := by
  obtain ⟨hgap, s, hs, rfl⟩ := read_eq_comment.mp h
  refine read_eq_comment.mpr ⟨hgap, ?_⟩
  have hm := List.mem_of_find?_eq_some hs
  have ⟨ho, hc⟩ := hp.block hm
  have hsolid := solid_of_blockSymbols? hp hs
  have hcollapse : collapse (c :: inside) = c :: collapse inside := collapse_solid_cons hsolid
  have hlead' := hlead.collapse (c :: inside)
  have hpre : s.opener.toList <+: (c :: inside) ++ back := by
    simpa [List.isPrefixOf_iff_prefix] using List.find?_some hs
  rcases prefix_append_cases hpre with ⟨tail, htail⟩ | ⟨gone, hgone, hne, hback⟩
  case inl =>
    have hnew : c :: (collapse inside ++ new) = s.opener.toList ++ (collapse tail ++ new) := by
      rw [← List.cons_append, ← hcollapse, htail, collapse_append_left ho.solid, List.append_assoc]
    have hbehind : behind s.opener (inside ++ back) = tail ++ back :=
      behind_eq ho.1 (by rw [← List.cons_append, htail, List.append_assoc])
    rw [hcollapse, List.cons_append] at hlead'
    refine ⟨s, blockSymbols?_some_of_leads hp hlead' hs (hnew ▸ List.prefix_append ..), ?_⟩
    rw [behind_eq ho.1 hnew]
    rw [hbehind] at hlen hend
    refine closed_collapse hp (by simpa using ⟨s, hm, rfl⟩) hlead hlen
      (hend.imp_right fun h => ⟨h.1, ?_⟩)
    exact h.2.of_suffix (htail ▸ List.suffix_append ..)
  case inr =>
    -- The opener itself is split, so the comment has another one that is shorter.
    have hlt := length_behind_lt (c := c) rfl hgone hne hback
    have hv : (closed profile (behind s.opener (inside ++ back)) [s.closer]).length ≤
        (behind s.opener (inside ++ back)).length := (closed_suffix _).length_le
    obtain ⟨rfl, hunsplit⟩ := hend.resolve_left fun h => by
      rw [h.1] at hv
      exact absurd hv (Nat.not_le_of_lt hlt)
    have hinside : Solid inside :=
      (Solid.cons_iff.mp (ho.solid.subset (by simp [hgone]) : Solid (c :: inside))).2
    obtain ⟨t, ht, hpre⟩ := hopens
    obtain ⟨u, hu⟩ : ∃ u, blockSymbols? profile (c :: inside) = some u := by
      rw [← Option.isSome_iff_exists, blockSymbols?, List.find?_isSome]
      exact ⟨t, ht, by rwa [List.isPrefixOf_iff_prefix]⟩
    have hum := List.mem_of_find?_eq_some hu
    rw [List.append_nil, hinside.collapse_eq]
    refine ⟨u, hu, closed_of_no_closer (by simpa using ⟨u, hum, rfl⟩) (by simp) ?_⟩
    intro v hv hin
    exact hunsplit s hm _ _ hgone hne List.suffix_rfl hback v hv
      (hin.trans (behind_suffix ..).isInfix)

theorem read_copied (hp : profile.Punctuated) (hlead : Leads new back)
    (h : read profile c (inside ++ back) = (.copied, back)) (hnew : back = [] → new = []) :
    read profile c (inside ++ new) = (.copied, new) := by
  obtain ⟨hgap, hblock, hline, hrest⟩ := read_eq_copied.mp h
  have hlead := hlead.append (c :: inside)
  refine read_eq_copied.mpr ⟨hgap, blockSymbols?_none_of_leads hp hlead hblock,
    lineSymbol?_none_of_leads hp hlead hline, ?_⟩
  split at hrest
  case isTrue hq => rw [if_pos hq, closedString_append hrest hnew]
  case isFalse hq =>
    rw [if_neg hq]
    have : inside = [] := by simpa using hrest
    simp [this]

theorem read_copied_start (hp : profile.Punctuated)
    (h : read profile c (inside ++ back) = (.copied, rest)) (hlen : rest.length ≤ back.length)
    (hf : front <+: inside) : read profile c front = (.copied, []) := by
  obtain ⟨hgap, hblock, hline, hrest⟩ := read_eq_copied.mp h
  have hlead : Leads (c :: front) (c :: (inside ++ back)) := fun s _ hs =>
    hs.trans (List.cons_prefix_cons.mpr ⟨rfl, hf.trans (List.prefix_append ..)⟩)
  refine read_eq_copied.mpr ⟨hgap, blockSymbols?_none_of_leads hp hlead hblock,
    lineSymbol?_none_of_leads hp hlead hline, ?_⟩
  split at hrest
  case isTrue hq => rw [if_pos hq, closedString_of_start (hrest ▸ hlen) hf]
  case isFalse hq =>
    rw [if_neg hq]
    rw [← hrest, List.length_append] at hlen
    have : inside = [] := List.length_eq_zero_iff.mp (by omega)
    exact List.prefix_nil.mp (this ▸ hf)

end Parts

end SourceDocs.Chars

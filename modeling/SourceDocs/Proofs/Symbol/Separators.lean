import SourceDocs.Proofs.Symbol.Parentheses

namespace SourceDocs

namespace Symbol

open Text Unicode

variable {a b c : Char} {cs rest piece text : List Char}

def dotted (a b : Char) : List Char → List Char
  | c :: d :: rest =>
    if c = a ∧ d = b then '.' :: dotted a b rest else c :: dotted a b (d :: rest)
  | cs => cs

@[simp]
theorem dotted_nil : dotted a b [] = [] := rfl

theorem dotted_pair : dotted a b (a :: b :: rest) = '.' :: dotted a b rest := by
  rw [dotted, if_pos ⟨rfl, rfl⟩]

theorem dotted_plain (h : c = a → rest.head? ≠ some b) :
    dotted a b (c :: rest) = c :: dotted a b rest := by
  cases rest
  case nil => rfl
  case cons d rest => rw [dotted, if_neg fun hcd => h hcd.1 (congrArg some hcd.2)]

-- Induction over the separators that are replaced and the characters between them.
@[elab_as_elim]
theorem dotted_induction (a b : Char) {motive : List Char → Prop} (nil : motive [])
    (pair : ∀ rest, motive rest → motive (a :: b :: rest))
    (plain : ∀ c rest, (c = a → rest.head? ≠ some b) → motive rest → motive (c :: rest))
    (cs : List Char) : motive cs := by
  fun_induction dotted a b cs
  case case1 c d rest h ih =>
    obtain ⟨rfl, rfl⟩ := h
    exact pair rest ih
  case case2 c d rest h ih =>
    exact plain c (d :: rest) (fun hc hd => h ⟨hc, Option.some.inj hd⟩) ih
  case case3 cs h =>
    match cs with
    | [] => exact nil
    | [c] => exact plain c [] (fun _ => nofun) nil
    | c :: d :: rest => exact absurd rfl (h c d rest)

theorem dotted_append {front back : List Char} (h : a ∈ front.getLast? → back.head? ≠ some b) :
    dotted a b (front ++ back) = dotted a b front ++ dotted a b back := by
  induction front using dotted_induction a b
  case nil => rfl
  case pair rest ih =>
    simp only [List.cons_append, dotted_pair]
    rw [ih fun ha => h ?_]
    cases rest <;> simp_all
  case plain c rest hc ih =>
    have hplain : c = a → (rest ++ back).head? ≠ some b := by
      cases rest
      case nil => exact fun hc => h (by simp [hc])
      case cons => exact hc
    rw [List.cons_append, dotted_plain hplain, dotted_plain hc, ih fun ha => h ?_, List.cons_append]
    cases rest <;> simp_all

theorem dotted_eq_self (h : a ∉ cs) : dotted a b cs = cs := by
  induction cs
  case nil => rfl
  case cons c cs ih =>
    obtain ⟨hc, h⟩ := List.ne_and_not_mem_of_not_mem_cons h
    rw [dotted_plain fun hca => absurd hca.symm hc, ih h]

theorem head?_dotted : (dotted a b cs).head? = cs.head? ∨
    (dotted a b cs).head? = some '.' ∧ cs.head? = some a := by
  induction cs using dotted_induction a b
  case nil => exact .inl rfl
  case pair rest _ => exact .inr ⟨by rw [dotted_pair]; rfl, rfl⟩
  case plain c rest hc _ => exact .inl (by rw [dotted_plain hc]; rfl)

theorem head?_dotted_of_ne (hc : c ≠ a) (h : cs.head? = some c) :
    (dotted a b cs).head? = some c := by
  rcases head?_dotted with hd | ⟨-, hd⟩
  case inl => exact hd.trans h
  case inr => exact absurd (Option.some.inj (h.symm.trans hd)) hc

theorem head?_of_dotted (hc : c ≠ '.') (h : (dotted a b cs).head? = some c) :
    cs.head? = some c := by
  rcases head?_dotted with hd | ⟨hd, -⟩
  case inl => exact hd.symm.trans h
  case inr => exact absurd (Option.some.inj (h.symm.trans hd)) hc

theorem eq_nil_of_dotted (h : dotted a b cs = []) : cs = [] := by
  rcases head?_dotted with hd | ⟨hd, -⟩ <;> rw [h] at hd
  case inl => exact List.head?_eq_none_iff.mp hd.symm
  case inr => cases hd

theorem getLast?_dotted : (dotted a b cs).getLast? = cs.getLast? ∨
    (dotted a b cs).getLast? = some '.' ∧ cs.getLast? = some b := by
  induction cs using dotted_induction a b
  case nil => exact .inl rfl
  case pair rest ih =>
    rw [dotted_pair, List.getLast?_cons, List.getLast?_cons, List.getLast?_cons]
    rcases ih with ih | ⟨ih, hb⟩
    case inl =>
      rw [ih]
      cases rest.getLast? <;> simp
    case inr => simp [ih, hb]
  case plain c rest hc ih =>
    rw [dotted_plain hc, List.getLast?_cons, List.getLast?_cons]
    rcases ih with ih | ⟨ih, hb⟩ <;> simp_all

-- A place in the text with dots, other than before a dot, is a place in the text.
theorem exists_of_dotted_eq_append {front back : List Char} (h : dotted a b cs = front ++ back)
    (hc : back.head? = some c) (hdot : c ≠ '.') : ∃ front' back', cs = front' ++ back' ∧
      dotted a b front' = front ∧ dotted a b back' = back ∧ back'.head? = some c := by
  induction cs using dotted_induction a b generalizing front
  case nil => simp_all
  case pair rest ih =>
    rw [dotted_pair] at h
    rcases List.cons_eq_append_iff.mp h with ⟨rfl, rfl⟩ | ⟨front, rfl, heq⟩
    case inl => exact absurd (Option.some.inj hc).symm hdot
    case inr =>
      obtain ⟨front', back', rfl, rfl, hb, hc'⟩ := ih heq
      exact ⟨a :: b :: front', back', rfl, dotted_pair, hb, hc'⟩
  case plain d rest hd ih =>
    rw [dotted_plain hd] at h
    rcases List.cons_eq_append_iff.mp h with ⟨rfl, rfl⟩ | ⟨front, rfl, heq⟩
    case inl => exact ⟨[], d :: rest, rfl, rfl, dotted_plain hd, hc⟩
    case inr =>
      obtain ⟨front', back', rfl, rfl, hb, hc'⟩ := ih heq
      refine ⟨d :: front', back', rfl, dotted_plain fun hda => ?_, hb, hc'⟩
      cases front'
      case nil => nofun
      case cons => exact hd hda

theorem IsPair.eq_or_ne {a' b' : Char} (hp : IsPair a b) (hp' : IsPair a' b') :
    a = a' ∧ b = b' ∨ a' ≠ a ∧ b' ≠ a := by
  rcases hp with ⟨rfl, rfl⟩ | ⟨rfl, rfl⟩ <;> rcases hp' with ⟨rfl, rfl⟩ | ⟨rfl, rfl⟩ <;> decide

theorem IsPair.ne_dot (hp : IsPair a b) : a ≠ '.' ∧ b ≠ '.' := by
  rcases hp with ⟨rfl, rfl⟩ | ⟨rfl, rfl⟩ <;> decide

theorem afterSeparator?_dotted (hp : IsPair a b) (h : afterSeparator? cs = some rest) :
    afterSeparator? (dotted a b cs) = some (dotted a b rest) := by
  rcases afterSeparator?_eq_some_iff.mp h with rfl | ⟨a', b', hp', rfl⟩
  case inl =>
    rw [dotted_plain fun h => absurd h.symm hp.ne_dot.1]
    rfl
  case inr =>
    rcases hp.eq_or_ne hp' with ⟨rfl, rfl⟩ | ⟨ha, hb⟩
    case inl =>
      rw [dotted_pair]
      rfl
    case inr =>
      rw [dotted_plain fun h => absurd h ha, dotted_plain fun h => absurd h hb]
      exact afterSeparator?_eq_some_iff.mpr (.inr ⟨a', b', hp', rfl⟩)

theorem afterSeparator?_cons_dotted (h : afterSeparator? (c :: rest) = none) :
    afterSeparator? (c :: dotted a b rest) = none := by
  obtain ⟨hdot, hnone⟩ := afterSeparator?_eq_none_iff.mp h
  refine afterSeparator?_eq_none_iff.mpr ⟨hdot, fun a' b' hp' hc => ?_⟩
  rcases head?_dotted with hh | ⟨hh, -⟩ <;> rw [hh]
  case inl => exact hnone a' b' hp' hc
  case inr => exact fun hb => hp'.ne_dot.2 (Option.some.inj hb).symm

theorem pieces_dotted (hp : IsPair a b) : pieces (dotted a b cs) = pieces cs := by
  fun_induction pieces cs
  case case1 => exact pieces_nil
  case case2 c rest rest' hs ih => rw [pieces_separator (afterSeparator?_dotted hp hs), ih]
  case case3 c rest hs ih =>
    have hc := (afterSeparator?_eq_none_iff.mp hs).2 a b hp
    rw [dotted_plain hc, pieces_plain (afterSeparator?_cons_dotted hs), ih]

theorem IsPair.not_white (hp : IsPair a b) : isWhiteSpace a = false ∧ isWhiteSpace b = false := by
  rcases hp with ⟨rfl, rfl⟩ | ⟨rfl, rfl⟩ <;> decide

theorem trimStart_dotted (hp : IsPair a b) :
    trimStart (dotted a b cs) = dotted a b (trimStart cs) := by
  induction cs using dotted_induction a b
  case nil => rfl
  case pair rest _ =>
    rw [dotted_pair, trimStart, trimStart, List.dropWhile_cons_of_neg (by decide),
      List.dropWhile_cons_of_neg (by simp [hp.not_white]), dotted_pair]
  case plain c rest hc ih =>
    rw [dotted_plain hc, trimStart, trimStart, List.dropWhile_cons, List.dropWhile_cons]
    split
    case isTrue => exact ih
    case isFalse => exact (dotted_plain hc).symm

theorem trimEnd_dotted (hp : IsPair a b) : trimEnd (dotted a b cs) = dotted a b (trimEnd cs) := by
  obtain ⟨blanks, hcs, hb⟩ := exists_trimEnd cs
  have ha : a ∉ blanks := not_mem_of_white hb hp.not_white.1
  have hhead : blanks.head? ≠ some b := fun h =>
    not_mem_of_white hb hp.not_white.2 (List.mem_of_head? h)
  conv_lhs => rw [hcs, dotted_append fun _ => hhead, dotted_eq_self ha, trimEnd_append_white hb]
  refine trimEnd_eq_self fun c hc => ?_
  rcases getLast?_dotted with hl | ⟨hl, -⟩
  case inl => exact getLast?_trimEnd cs c (hl ▸ hc)
  case inr =>
    obtain rfl := Option.some.inj (hl.symm.trans hc)
    decide

theorem normalize?_dotted (hp : IsPair a b) : normalize? (dotted a b cs) = normalize? cs := by
  rw [normalize?_eq, normalize?_eq, segmentsOf, segmentsOf, trim, trimStart_dotted hp,
    trimEnd_dotted hp, pieces_dotted hp, trim]

end Symbol

namespace Text

variable {text text' : List Char}

def brackets (text : List Char) : List Char :=
  text.filter fun c => isClosing c || (closing? c).isSome

theorem Balanced.append_plain {front : List Char}
    (h : ∀ c ∈ front, ¬(isClosing c || (closing? c).isSome) = true) (hb : Balanced text) :
    Balanced (front ++ text) := by
  induction front
  case nil => exact hb
  case cons c front ih =>
    obtain ⟨hc, h⟩ := List.forall_mem_cons.mp h
    simp only [Bool.or_eq_true, not_or, Option.not_isSome_iff_eq_none] at hc
    exact .plain (Bool.eq_false_iff.mpr hc.1) hc.2 (ih h)

-- Only the brackets of a text count for its balance.
theorem Balanced.of_brackets_eq (h : Balanced text) (he : brackets text' = brackets text) :
    Balanced text' := by
  induction h generalizing text'
  case nil =>
    have hplain := List.filter_eq_nil_iff.mp he
    simpa using Balanced.nil.append_plain hplain
  case plain c text hc ho _ ih =>
    refine ih (he.trans ?_)
    exact List.filter_cons_of_neg (by simp [hc, ho])
  case block opener closer inner text hp _ _ ihi ih =>
    have hopener : (isClosing opener || (closing? opener).isSome) = true := by simp [hp]
    have hcloser : (isClosing closer || (closing? closer).isSome) = true := by
      simp [(isClosing_of_closing? hp).1]
    have heq : brackets (opener :: inner ++ closer :: text) =
        opener :: (brackets inner ++ closer :: brackets text) := by
      simp [brackets, hopener, hcloser]
    obtain ⟨front, rest, rfl, hf, -, hr⟩ := List.filter_eq_cons_iff.mp (he.trans heq)
    obtain ⟨inner', rest', rfl, hi, hr'⟩ := List.filter_eq_append_iff.mp hr
    obtain ⟨mid, text', rfl, hm, -, ht⟩ := List.filter_eq_cons_iff.mp hr'
    have hinner : brackets (inner' ++ mid) = brackets inner := by
      rw [brackets, List.filter_append, hi, List.filter_eq_nil_iff.mpr hm, List.append_nil]
    have := Balanced.block hp (ihi hinner) (ih ht)
    simpa using this.append_plain hf

theorem round_of_closing? {opener closer : Char} (h : closing? opener = some closer) :
    (opener == '(') = (closer == ')') ∧ (opener == ')') = false ∧ (closer == '(') = false := by
  unfold closing? at h
  split at h <;> cases h <;> decide

theorem Balanced.count_eq (h : Balanced text) : text.count '(' = text.count ')' := by
  induction h
  case nil => rfl
  case plain c text hc ho _ ih =>
    have hopen : c ≠ '(' := by rintro rfl; cases ho
    have hclose : c ≠ ')' := by rintro rfl; cases hc
    rw [List.count_cons_of_ne hopen, List.count_cons_of_ne hclose, ih]
  case block opener closer inner text hp _ _ ihi ih =>
    obtain ⟨h, ho, hc⟩ := round_of_closing? hp
    simp [List.count_cons, h, ho, hc]
    omega

-- Behind every bracket that opens is its partner.
theorem Balanced.count_le {front back : List Char} (h : Balanced text) (ht : text = front ++ back) :
    back.count '(' ≤ back.count ')' := by
  induction h generalizing front back
  case nil => simp_all
  case plain c text hc ho h ih =>
    rcases List.cons_eq_append_iff.mp ht with ⟨-, rfl⟩ | ⟨front, -, ht⟩
    case inl => exact (Balanced.plain hc ho h).count_eq.le
    case inr => exact ih ht
  case block opener closer inner text hp hi h ihi ih =>
    obtain ⟨-, -, hc⟩ := round_of_closing? hp
    rcases List.append_eq_append_iff.mp ht with ⟨rest, -, hr⟩ | ⟨rest, hr, rfl⟩
    case inl =>
      rcases List.cons_eq_append_iff.mp hr with ⟨-, rfl⟩ | ⟨rest, -, hr⟩
      case inl => simp [List.count_cons, hc, h.count_eq]
      case inr => exact ih hr
    case inr =>
      rcases List.cons_eq_append_iff.mp hr with ⟨-, rfl⟩ | ⟨front, -, hr⟩
      case inl => exact (Balanced.block hp hi h).count_eq.le
      case inr =>
        have := ihi hr
        simp [List.count_cons, hc, h.count_eq]
        omega

theorem IsBlock.count_eq (h : IsBlock text) : text.count '(' = text.count ')' := by
  obtain ⟨opener, inner, closer, hc, hi, rfl⟩ := h
  exact (Balanced.block hc hi .nil).count_eq

-- Round brackets are not in balance in what ends a block and is not all of it.
theorem IsBlock.count_lt {front back : List Char} (h : IsBlock (front ++ back))
    (hh : front.head? = some '(') (hb : back ≠ []) : back.count '(' < back.count ')' := by
  obtain ⟨opener, inner, closer, hc, hi, heq⟩ := h
  obtain ⟨front, rfl⟩ := List.head?_eq_some_iff.mp hh
  obtain ⟨back, last, rfl⟩ := List.eq_nil_or_concat back |>.resolve_left hb
  rw [List.concat_eq_append, ← List.append_assoc] at heq
  obtain ⟨heq, hlast⟩ := List.append_inj' heq rfl
  obtain ⟨rfl, rfl⟩ := List.cons.inj heq
  obtain rfl : last = closer := List.head_eq_of_cons_eq hlast
  obtain rfl : last = ')' := (Option.some.inj hc).symm
  have := hi.count_le rfl
  simp
  omega

end Text

namespace Symbol

open Text

variable {a b : Char} {text name name' : List Char}

theorem IsPair.not_round (hp : IsPair a b) : a ≠ '(' ∧ a ≠ ')' ∧ b ≠ '(' ∧ b ≠ ')' := by
  rcases hp with ⟨rfl, rfl⟩ | ⟨rfl, rfl⟩ <;> decide

theorem count_dotted {c : Char} {cs : List Char} (ha : a ≠ c) (hb : b ≠ c) (hc : c ≠ '.') :
    (dotted a b cs).count c = cs.count c := by
  induction cs using dotted_induction a b
  case nil => rfl
  case pair rest ih => simp [dotted_pair, ih, ha, hb, hc.symm]
  case plain d rest hd ih => rw [dotted_plain hd, List.count_cons, List.count_cons, ih]

-- A text and the one with dots leave out their parentheses at one place, if both do.
theorem eq_dotted_of_leavesOut (hp : IsPair a b) (h : LeavesOut text name)
    (h' : LeavesOut (dotted a b text) name') : name' = dotted a b name := by
  obtain ⟨block, ht, hb, hh, -⟩ := h
  obtain ⟨block', ht', hb', hh', -⟩ := h'
  rw [trimEnd_dotted hp] at ht'
  obtain ⟨front, back, heq, rfl, rfl, hback⟩ :=
    exists_of_dotted_eq_append ht' hh' (by decide)
  obtain ⟨ha, ha', hbr, hbr'⟩ := hp.not_round
  rcases List.append_eq_append_iff.mp (ht.symm.trans heq) with ⟨rest, rfl, rfl⟩ | ⟨rest, rfl, rfl⟩
  all_goals
    cases rest
    case nil => simp
  case inl.cons c rest =>
    have hlt := hb.count_lt (by simpa using hh) (by rintro rfl; cases hback)
    have := hb'.count_eq
    rw [count_dotted ha hbr (by decide), count_dotted ha' hbr' (by decide)] at this
    omega
  case inr.cons c rest =>
    have hsplit : dotted a b (c :: rest ++ block) = dotted a b (c :: rest) ++ dotted a b block :=
      dotted_append fun _ h => hbr (Option.some.inj (h.symm.trans hh))
    rw [hsplit] at hb'
    have hround : (dotted a b (c :: rest)).head? = some '(' :=
      head?_dotted_of_ne ha.symm (by simpa using hback)
    have hne : dotted a b block ≠ [] := fun h => by
      rw [eq_nil_of_dotted h] at hh
      cases hh
    have hlt := hb'.count_lt hround hne
    rw [count_dotted ha hbr (by decide), count_dotted ha' hbr' (by decide), hb.count_eq] at hlt
    omega

theorem brackets_dotted (cs : List Char) : brackets (dotted ':' ':' cs) = brackets cs := by
  induction cs using dotted_induction ':' ':'
  case nil => rfl
  case pair rest ih =>
    rw [dotted_pair]
    exact ih
  case plain c rest hc ih =>
    rw [brackets] at ih
    rw [dotted_plain hc, brackets, brackets, List.filter_cons, List.filter_cons, ih, brackets]

theorem ne_of_closing? {opener closer : Char} (h : closing? opener = some closer) :
    opener ≠ ':' ∧ closer ≠ ':' ∧ opener ≠ '.' ∧ closer ≠ '.' := by
  unfold closing? at h
  split at h <;> cases h <;> decide

theorem isBlock_dotted_iff {block : List Char} : IsBlock (dotted ':' ':' block) ↔ IsBlock block := by
  constructor
  case mp =>
    rintro ⟨opener, inner, closer, hc, hi, h⟩
    obtain ⟨ho, hcl, hod, hcld⟩ := ne_of_closing? hc
    obtain ⟨front, back, rfl, hf, hb, hh⟩ := exists_of_dotted_eq_append h (by rfl) hcld
    obtain ⟨front, rfl⟩ := List.head?_eq_some_iff.mp (head?_of_dotted hod (by rw [hf]; rfl))
    obtain ⟨back, rfl⟩ := List.head?_eq_some_iff.mp hh
    rw [dotted_plain fun h => absurd h ho] at hf
    rw [dotted_plain fun h => absurd h hcl] at hb
    obtain ⟨-, rfl⟩ := List.cons.inj hf
    obtain rfl := eq_nil_of_dotted (List.cons.inj hb).2
    exact ⟨opener, front, closer, hc, hi.of_brackets_eq (brackets_dotted front).symm, rfl⟩
  case mpr =>
    rintro ⟨opener, inner, closer, hc, hi, rfl⟩
    obtain ⟨ho, hcl, -⟩ := ne_of_closing? hc
    refine ⟨opener, dotted ':' ':' inner, closer, hc, hi.of_brackets_eq (brackets_dotted inner), ?_⟩
    rw [List.cons_append, dotted_plain fun h => absurd h ho,
      dotted_append fun _ h => hcl (by simpa using h)]
    rfl

theorem exists_leavesOut_dotted (text : List Char) :
    (∃ name, LeavesOut (dotted ':' ':' text) name) ↔ ∃ name, LeavesOut text name := by
  have hp : IsPair ':' ':' := .inl ⟨rfl, rfl⟩
  constructor
  case mp =>
    rintro ⟨name, block, ht, hb, hh, hn⟩
    rw [trimEnd_dotted hp] at ht
    obtain ⟨front, back, heq, rfl, rfl, hback⟩ := exists_of_dotted_eq_append ht hh (by decide)
    exact ⟨front, back, heq, isBlock_dotted_iff.mp hb, hback, normalize?_dotted hp ▸ hn⟩
  case mpr =>
    rintro ⟨name, block, ht, hb, hh, hn⟩
    refine ⟨dotted ':' ':' name, dotted ':' ':' block, ?_, isBlock_dotted_iff.mpr hb,
      head?_dotted_of_ne (by decide) hh, (normalize?_dotted hp).symm ▸ hn⟩
    rw [trimEnd_dotted hp, ht, dotted_append fun _ h => by cases hh.symm.trans h]

theorem ofText?_dotted_iff (hp : IsPair a b) (text : List Char) :
    ofText? (dotted a b text) = ofText? text ↔
      ((∃ name, LeavesOut (dotted a b text) name) ↔ ∃ name, LeavesOut text name) := by
  constructor
  case mp =>
    intro heq
    rw [← not_iff_not, ← ofText?_eq_normalize?_iff, ← ofText?_eq_normalize?_iff,
      normalize?_dotted hp, heq]
  case mpr =>
    intro hiff
    by_cases h : ∃ name, LeavesOut text name
    case pos =>
      obtain ⟨name', h'⟩ := hiff.mpr h
      obtain ⟨name, h⟩ := h
      rw [h.ofText?_eq, h'.ofText?_eq, eq_dotted_of_leavesOut hp h h', normalize?_dotted hp]
    case neg =>
      rw [ofText?_eq_normalize?_iff.mpr h, ofText?_eq_normalize?_iff.mpr (hiff.not.mpr h),
        normalize?_dotted hp]

-- A double colon is as good as a dot in every text. An arrow is so exactly if the symbols of both
-- texts, or of neither, leave out parentheses at the end: it has a bracket in it, and brackets that
-- are crossed by that are no parentheses.
theorem separators_alike (text : List Char) : ofText? (dotted ':' ':' text) = ofText? text ∧
    (ofText? (dotted '-' '>' text) = ofText? text ↔
      ((∃ name, LeavesOut (dotted '-' '>' text) name) ↔ ∃ name, LeavesOut text name)) :=
  ⟨(ofText?_dotted_iff (.inl ⟨rfl, rfl⟩) text).mpr (exists_leavesOut_dotted text),
    ofText?_dotted_iff (.inr ⟨rfl, rfl⟩) text⟩

-- The arrow closes an angle bracket that is not there, so the round ones are part of the name.
theorem arrow_not_alike : ofText? "f(a->b)".toList = some ⟨["f(a", "b)"]⟩ ∧
    ofText? (dotted '-' '>' "f(a->b)".toList) = some ⟨["f"]⟩ := by
  decide +kernel

end Symbol
end SourceDocs

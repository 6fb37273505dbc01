import Mathlib
import SourceDocs.Symbol.Parameters

namespace SourceDocs

namespace Text

-- Every bracket of the text has its partner, and no two pairs cross.
inductive Balanced : List Char → Prop
  | nil : Balanced []
  | plain {c : Char} {text : List Char} (hc : isClosing c = false) (ho : closing? c = none)
      (h : Balanced text) : Balanced (c :: text)
  | block {opener closer : Char} {inner text : List Char} (hc : closing? opener = some closer)
      (hi : Balanced inner) (h : Balanced text) : Balanced (opener :: inner ++ closer :: text)

def IsBlock (text : List Char) : Prop :=
  ∃ opener inner closer, closing? opener = some closer ∧ Balanced inner ∧
    text = opener :: inner ++ [closer]

theorem IsBlock.exists_head? {text : List Char} (h : IsBlock text) :
    ∃ opener, text.head? = some opener := by
  obtain ⟨opener, inner, closer, -, -, rfl⟩ := h
  exact ⟨opener, rfl⟩

theorem IsBlock.isClosing_last {before block back : List Char} {last : Char} (h : IsBlock block)
    (hb : back ++ [last] = before ++ block) : isClosing last = true := by
  obtain ⟨opener, inner, closer, hc, -, rfl⟩ := h
  rw [← List.append_assoc] at hb
  obtain rfl : last = closer := List.head_eq_of_cons_eq (List.append_inj' hb rfl).2
  exact (isClosing_of_closing? hc).1

end Text

namespace Symbol

open Text

variable {c opener closer last : Char} {closers back before text : List Char}

theorem openingOf?_closing (h : isClosing c = true) :
    openingOf? closers (c :: back) = openingOf? (c :: closers) back := by
  rw [openingOf?, if_pos h]

theorem openingOf?_plain (hc : isClosing c = false) (ho : closing? c = none) :
    openingOf? closers (c :: back) = openingOf? closers back := by
  simp [openingOf?, hc, ho]

theorem openingOf?_opening (h : closing? opener = some closer) :
    openingOf? (closer :: closers) (opener :: back) =
      if closers = [] then some (opener, back) else openingOf? closers back := by
  simp [openingOf?, (isClosing_of_closing? h).2, h]

-- Text in balance is passed over, as long as some bracket before it is waited for.
theorem openingOf?_balanced (h : Balanced text) (hc : closers ≠ []) (back : List Char) :
    openingOf? closers (text.reverse ++ back) = openingOf? closers back := by
  induction h generalizing closers back
  case nil => rfl
  case plain c text hc' ho _ ih =>
    rw [List.reverse_cons, List.append_assoc, ih hc, List.singleton_append,
      openingOf?_plain hc' ho]
  case block opener closer inner text hp _ _ ihi ih =>
    have hclosing := (isClosing_of_closing? hp).1
    calc openingOf? closers ((opener :: inner ++ closer :: text).reverse ++ back)
      _ = openingOf? closers (text.reverse ++ (closer :: (inner.reverse ++ opener :: back))) := by
        simp
      _ = openingOf? (closer :: closers) (inner.reverse ++ opener :: back) := by
        rw [ih hc, openingOf?_closing hclosing]
      _ = openingOf? closers back := by
        rw [ihi (List.cons_ne_nil _ _), openingOf?_opening hp, if_neg hc]

-- The text that has been passed from the innermost bracket without a partner on. The closing
-- brackets without a partner are in it, with text in balance between them, and the last one ends
-- it.
inductive Passed : (closers text : List Char) → Prop
  | last (c : Char) : Passed [c] [c]
  | cons {c : Char} {closers inner text : List Char} (hi : Balanced inner)
      (h : Passed closers text) : Passed (c :: closers) (c :: inner ++ text)

theorem Passed.eq_of_singleton (h : Passed [c] text) : text = [c] := by
  cases h
  case last => rfl
  case cons h => cases h

theorem Passed.of_cons (h : Passed (c :: closers) text) (hc : closers ≠ []) :
    ∃ inner rest, text = c :: inner ++ rest ∧ Balanced inner ∧ Passed closers rest := by
  cases h
  case last => exact absurd rfl hc
  case cons inner rest hi hr => exact ⟨inner, rest, rfl, hi, hr⟩

-- The text behind the search is text in balance and then what has been passed before. Where the
-- search ends, all of it is in balance but for the last bracket, and that is the partner.
theorem openingOf?_eq_some {inner passed : List Char} (hi : Balanced inner)
    (hp : Passed closers passed) (h : openingOf? closers back = some (opener, before)) :
    ∃ text, back.reverse = before.reverse ++ opener :: text ∧
      IsBlock (opener :: text ++ inner ++ passed) := by
  fun_induction openingOf? closers back generalizing inner passed
  case case1 => cases h
  case case2 closers c back hc ih =>
    obtain ⟨text, ht, hb⟩ := ih .nil (.cons hi hp) h
    exact ⟨text ++ [c], by simp [ht], by simpa using hb⟩
  case case3 closers c back hc ho ih =>
    obtain ⟨text, ht, hb⟩ := ih (.plain (Bool.eq_false_iff.mpr hc) ho hi) hp h
    exact ⟨text ++ [c], by simp [ht], by simpa using hb⟩
  case case4 => cases h
  case case5 => cases h
  case case6 c back _ closer ho innermost hne =>
    cases h
    obtain rfl : innermost = closer := not_not.mp hne
    exact ⟨[], by simp, opener, inner, innermost, ho, hi, by rw [hp.eq_of_singleton]; rfl⟩
  case case7 c back _ closer ho innermost outer hne houter ih =>
    obtain rfl : innermost = closer := not_not.mp hne
    obtain ⟨inner', rest, rfl, hi', hr⟩ := hp.of_cons houter
    obtain ⟨text, ht, hb⟩ := ih (.block ho hi hi') hr h
    exact ⟨text ++ [c], by simp [ht], by simpa using hb⟩

theorem openingOf?_last_eq_some_iff :
    openingOf? [last] back = some (opener, before) ↔
      ∃ inner, closing? opener = some last ∧ Balanced inner ∧
        back.reverse = before.reverse ++ opener :: inner := by
  constructor
  case mp =>
    intro h
    obtain ⟨text, ht, o, inner, c, hc, hi, hb⟩ := openingOf?_eq_some .nil (.last last) h
    simp only [List.append_nil, List.cons_append, List.cons.injEq] at hb
    obtain ⟨rfl, hb⟩ := hb
    obtain ⟨rfl, hc'⟩ := List.append_inj' hb rfl
    obtain rfl : last = c := List.head_eq_of_cons_eq hc'
    exact ⟨text, hc, hi, ht⟩
  case mpr =>
    rintro ⟨inner, hc, hi, hb⟩
    obtain rfl : back = inner.reverse ++ opener :: before := by
      simpa using congrArg List.reverse hb
    rw [openingOf?_balanced hi (List.cons_ne_nil _ _), openingOf?_opening hc, if_pos rfl]

-- The same, said of the text in reading order.
theorem openingOf?_last_eq_some_iff_isBlock :
    openingOf? [last] back = some (opener, before.reverse) ↔
      ∃ block, back.reverse ++ [last] = before ++ block ∧ IsBlock block ∧
        block.head? = some opener := by
  rw [openingOf?_last_eq_some_iff, List.reverse_reverse]
  constructor
  case mp =>
    rintro ⟨inner, hc, hi, hb⟩
    exact ⟨opener :: inner ++ [last], by simp [hb], ⟨opener, inner, last, hc, hi, rfl⟩, rfl⟩
  case mpr =>
    rintro ⟨_, hb, ⟨o, inner, c, hc, hi, rfl⟩, ho⟩
    obtain rfl : o = opener := Option.some.inj ho
    rw [← List.append_assoc] at hb
    obtain ⟨hback, hlast⟩ := List.append_inj' hb rfl
    obtain rfl : last = c := List.head_eq_of_cons_eq hlast
    exact ⟨inner, hc, hi, hback⟩

def NamesOperator (before : List Char) : Prop :=
  ∃ word, word <:+ dropEndWhile (· = ' ') before ∧ word.map Char.toLower = "operator".toList

theorem endsInOperator_reverse_iff :
    endsInOperator before.reverse = true ↔ NamesOperator before := by
  have ht : before.reverse.dropWhile (· = ' ') = (dropEndWhile (· = ' ') before).reverse := by
    rw [dropEndWhile, List.reverse_reverse]
  rw [endsInOperator, ht, beq_iff_eq, NamesOperator]
  generalize dropEndWhile (· = ' ') before = t
  constructor
  case mp =>
    intro h
    refine ⟨(t.reverse.take 8).reverse, ?_, ?_⟩
    · rw [← List.reverse_prefix, List.reverse_reverse]
      exact List.take_prefix ..
    · rw [List.map_reverse, h]
      decide
  case mpr =>
    rintro ⟨word, hw, h⟩
    have hlen : word.reverse.length = 8 := by
      rw [List.length_reverse, ← List.length_map Char.toLower, h]
      rfl
    rw [← hlen, ← List.prefix_iff_eq_take.mp (List.reverse_prefix.mpr hw), List.map_reverse, h]
    decide

-- The parameters of the text start at the byte `i`. Before them is `before`, and `block` is the
-- parameters without the white space behind them. The brackets of `operator<` are part of the name.
structure ParametersAt (text : List Char) (i : Nat) (before block : List Char) : Prop where
  trimEnd_eq : trimEnd text = before ++ block
  utf8ByteSize_eq : (String.ofList before).utf8ByteSize = i
  pos : 0 < i
  isBlock : IsBlock block
  not_operator : ¬(block.head? = some '<' ∧ NamesOperator before)

theorem utf8ByteSize_ofList_pos {cs : List Char} :
    0 < (String.ofList cs).utf8ByteSize ↔ cs ≠ [] := by
  rw [Nat.pos_iff_ne_zero, ne_eq, String.utf8ByteSize_eq_zero_iff, String.ofList_eq_empty_iff]

theorem beforeParameters?_of_concat (ht : trimEnd text = back.reverse ++ [last]) :
    beforeParameters? text = some before ↔ isClosing last = true ∧ ∃ opener,
      openingOf? [last] back = some (opener, before.reverse) ∧ before ≠ [] ∧
        ¬(opener = '<' ∧ endsInOperator before.reverse = true) := by
  have hr : (trimEnd text).reverse = last :: back := by simp [ht]
  simp only [beforeParameters?, hr]
  split
  case isFalse hl => exact ⟨nofun, fun h => absurd h.1 hl⟩
  case isTrue hl =>
    rw [and_iff_right hl]
    cases openingOf? [last] back
    case none => exact ⟨nofun, nofun⟩
    case some found =>
      obtain ⟨opener, rest⟩ := found
      dsimp only
      constructor
      case mp =>
        intro h
        split at h
        case isTrue => cases h
        case isFalse hop =>
          split at h
          case isTrue => cases h
          case isFalse hne =>
            obtain rfl : rest = before.reverse := by
              rw [← Option.some.inj h, List.reverse_reverse]
            exact ⟨opener, rfl, by simpa using hne, hop⟩
      case mpr =>
        rintro ⟨opener', h, hne, hop⟩
        obtain ⟨rfl, rfl⟩ := Prod.mk.inj (Option.some.inj h)
        rw [if_neg hop, if_neg (by simpa using hne), List.reverse_reverse]

theorem beforeParameters?_eq_some_iff :
    beforeParameters? text = some before ↔ ∃ block, trimEnd text = before ++ block ∧
      before ≠ [] ∧ IsBlock block ∧ ¬(block.head? = some '<' ∧ NamesOperator before) := by
  rcases List.eq_nil_or_concat (trimEnd text) with ht | ⟨front, last, ht⟩
  case inl =>
    simp +contextual [beforeParameters?, ht, eq_comm]
  case inr =>
    replace ht : trimEnd text = front.reverse.reverse ++ [last] := by simp [ht]
    rw [beforeParameters?_of_concat ht]
    simp only [openingOf?_last_eq_some_iff_isBlock, ← ht, endsInOperator_reverse_iff]
    constructor
    case mp =>
      rintro ⟨-, opener, ⟨block, hb, h, ho⟩, hne, hop⟩
      exact ⟨block, hb, hne, h, fun ⟨hlt, hname⟩ =>
        hop ⟨Option.some.inj (ho.symm.trans hlt), hname⟩⟩
    case mpr =>
      rintro ⟨block, hb, hne, h, hop⟩
      obtain ⟨opener, ho⟩ := h.exists_head?
      exact ⟨h.isClosing_last (ht ▸ hb), opener, ⟨block, hb, h, ho⟩, hne, fun ⟨hlt, hname⟩ =>
        hop ⟨hlt ▸ ho, hname⟩⟩

theorem parametersAt_iff {i : Nat} {block : List Char} :
    ParametersAt text i before block ↔ beforeParameters? text = some before ∧
      trimEnd text = before ++ block ∧ (String.ofList before).utf8ByteSize = i := by
  rw [beforeParameters?_eq_some_iff]
  constructor
  case mp =>
    intro h
    have hne := utf8ByteSize_ofList_pos.mp (h.utf8ByteSize_eq ▸ h.pos)
    exact ⟨⟨block, h.trimEnd_eq, hne, h.isBlock, h.not_operator⟩, h.trimEnd_eq,
      h.utf8ByteSize_eq⟩
  case mpr =>
    rintro ⟨⟨block', hb', hne, h, hop⟩, hb, rfl⟩
    obtain rfl := List.append_cancel_left (hb'.symm.trans hb)
    exact ⟨hb, rfl, utf8ByteSize_ofList_pos.mpr hne, h, hop⟩

namespace ParametersAt

variable {i i' : Nat} {before' block block' : List Char}

theorem unique (h : ParametersAt text i before block) (h' : ParametersAt text i' before' block') :
    i' = i ∧ before' = before ∧ block' = block := by
  obtain ⟨hs, ht, rfl⟩ := parametersAt_iff.mp h
  obtain ⟨hs', ht', rfl⟩ := parametersAt_iff.mp h'
  obtain rfl := Option.some.inj (hs'.symm.trans hs)
  exact ⟨rfl, rfl, List.append_cancel_left (ht'.symm.trans ht)⟩

-- White space at the end is part of what follows.
theorem exists_append (h : ParametersAt text i before block) : ∃ after, text = before ++ after := by
  obtain ⟨blanks, hb⟩ : trimEnd text <+: text := List.rdropWhile_prefix ..
  exact ⟨block ++ blanks, by rw [← hb, h.trimEnd_eq, List.append_assoc]⟩

theorem isValid (h : ParametersAt text i before block) :
    String.Pos.Raw.IsValid (String.ofList text) ⟨i⟩ := by
  obtain ⟨after, rfl⟩ := h.exists_append
  rw [String.Pos.Raw.isValid_iff_exists_append]
  refine ⟨String.ofList before, String.ofList after, String.ofList_append, ?_⟩
  rw [← h.utf8ByteSize_eq]
  rfl

theorem splitParameters_eq (h : ParametersAt text i before block) :
    ∃ after, text = before ++ after ∧ splitParameters text = (trimEnd before, some after) := by
  obtain ⟨after, ht⟩ := h.exists_append
  refine ⟨after, ht, ?_⟩
  rw [splitParameters, (parametersAt_iff.mp h).1]
  simp [ht]

end ParametersAt

theorem parametersIndex?_eq_some_iff {i : Nat} :
    parametersIndex? text = some i ↔ ∃ before block, ParametersAt text i before block := by
  simp only [parametersIndex?, Option.map_eq_some_iff, parametersAt_iff]
  refine exists_congr fun before => ?_
  constructor
  case mp =>
    rintro ⟨h, hi⟩
    obtain ⟨block, hb, -⟩ := beforeParameters?_eq_some_iff.mp h
    exact ⟨block, h, hb, hi⟩
  case mpr =>
    rintro ⟨block, h, -, hi⟩
    exact ⟨h, hi⟩

theorem splitParameters_of_forall_not (h : ∀ i before block, ¬ParametersAt text i before block) :
    splitParameters text = (text, none) := by
  unfold splitParameters
  split
  case h_1 before hs =>
    obtain ⟨block, hb, -⟩ := beforeParameters?_eq_some_iff.mp hs
    exact absurd (parametersAt_iff.mpr ⟨hs, hb, rfl⟩) (h _ before block)
  case h_2 => rfl

-- The parameters of a text are found exactly where a block ends the text, white space aside, with
-- something before it that is not the name of an operator. There is at most one such place, between
-- two characters of the text. The text is split there, and one without parameters is left alone.
theorem parameters_are_last_block (text : List Char) :
    (∀ i, parametersIndex? text = some i ↔ ∃ before block, ParametersAt text i before block) ∧
      (∀ i before block, ParametersAt text i before block →
        (∀ i' before' block', ParametersAt text i' before' block' →
          i' = i ∧ before' = before ∧ block' = block) ∧
        String.Pos.Raw.IsValid (String.ofList text) ⟨i⟩ ∧
        ∃ after, text = before ++ after ∧ splitParameters text = (trimEnd before, some after)) ∧
      ((∀ i before block, ¬ParametersAt text i before block) →
        splitParameters text = (text, none)) := by
  refine ⟨fun i => parametersIndex?_eq_some_iff, fun i before block h => ?_,
    splitParameters_of_forall_not⟩
  exact ⟨fun _ _ _ h' => h.unique h', h.isValid, h.splitParameters_eq⟩

-- Two of the letters before the parameters have two bytes each.
theorem parameters_are_last_block_umlaut :
    let text := "Größe (ä[2]) ".toList
    ParametersAt text 8 "Größe ".toList "(ä[2])".toList ∧ parametersIndex? text = some 8 ∧
      splitParameters text = ("Größe".toList, some "(ä[2]) ".toList) := by
  intro text
  have hindex : Balanced ['[', '2', ']'] :=
    .block rfl (.plain (by decide) (by decide) .nil) .nil
  have h : ParametersAt text 8 "Größe ".toList "(ä[2])".toList :=
    ⟨by decide +kernel, by decide +kernel, by decide,
      ⟨'(', ['ä', '[', '2', ']'], ')', rfl, .plain (by decide) (by decide) hindex, rfl⟩,
      by rintro ⟨hlt, -⟩; revert hlt; decide⟩
  obtain ⟨hiff, hsplit, -⟩ := parameters_are_last_block text
  obtain ⟨-, -, after, ht, hs⟩ := hsplit _ _ _ h
  obtain rfl : "(ä[2]) ".toList = after := List.append_cancel_left (.trans (by decide) ht)
  exact ⟨h, (hiff 8).mpr ⟨_, _, h⟩, hs.trans (by decide +kernel)⟩

end Symbol
end SourceDocs

import SourceDocs.Proofs.OneLine.Collapse

namespace SourceDocs.Chars

open Token (Kind)

variable (profile : Profile)

def behind (s : String) (cs : List Char) : List Char :=
  cs.drop (s.toList.length - 1)

def blockSymbols? (cs : List Char) : Option BlockSymbols :=
  profile.blockComments.find? (·.opener.toList.isPrefixOf cs)

def lineSymbol? (cs : List Char) : Option String :=
  profile.lineComments.find? (·.toList.isPrefixOf cs)

def nested? (cs : List Char) : Option BlockSymbols :=
  if profile.blockCommentsNest then blockSymbols? profile cs else none

def closed (cs : List Char) (closers : List String) : List Char :=
  match closers, cs with
  | [], cs => cs
  | _ :: _, [] => []
  | closer :: outer, c :: rest =>
    if closer.toList.isPrefixOf (c :: rest) then closed (behind closer rest) outer
    else
      match nested? profile (c :: rest) with
      | some s => closed (behind s.opener rest) (s.closer :: closer :: outer)
      | none => closed rest (closer :: outer)
termination_by cs.length
decreasing_by
  all_goals
    simp only [behind, List.length_cons, List.length_drop]
    omega

def closedString (quote : Char) : List Char → List Char
  | [] => []
  | c :: rest =>
    if c = quote then rest
    else if c = '\\' then closedString quote rest.tail
    else closedString quote rest
termination_by cs => cs.length
decreasing_by
  all_goals
    simp only [List.length_cons, List.length_tail]
    omega

def isGap (c : Char) : Bool :=
  Kind.ofChar c = .blank || Kind.ofChar c = .lineBreak || profile.lineExtender.any (·.toList = [c])

-- What becomes of a part of the text.
inductive Part
  | gap
  -- A space, unless the comment is kept.
  | comment
  | copied

-- The part of the text that starts with `c`, when `cs` follows, and the rest of the text.
def read (c : Char) (cs : List Char) : Part × List Char :=
  if isGap profile c then (.gap, cs)
  else
    match blockSymbols? profile (c :: cs) with
    | some s => (.comment, closed profile (behind s.opener cs) [s.closer])
    | none =>
      match lineSymbol? profile (c :: cs) with
      | some s => (.gap, (behind s cs).dropWhile (Kind.ofChar · ≠ .lineBreak))
      | none => (.copied, if c = '"' ∨ c = '\x27' then closedString c cs else cs)

variable {profile} {c quote : Char} {cs : List Char}

theorem behind_suffix (s : String) (cs : List Char) : behind s cs <:+ cs :=
  List.drop_suffix ..

theorem closed_suffix (closers : List String) : closed profile cs closers <:+ cs := by
  fun_induction closed profile cs closers
  case case1 => exact List.suffix_rfl
  case case2 => exact List.suffix_rfl
  case case3 ih => exact (ih.trans (behind_suffix ..)).trans (List.suffix_cons ..)
  case case4 ih => exact (ih.trans (behind_suffix ..)).trans (List.suffix_cons ..)
  case case5 ih => exact ih.trans (List.suffix_cons ..)

theorem closedString_suffix : closedString quote cs <:+ cs := by
  fun_induction closedString quote cs
  case case1 => exact List.suffix_rfl
  case case2 => exact List.suffix_cons ..
  case case3 ih => exact (ih.trans (List.tail_suffix ..)).trans (List.suffix_cons ..)
  case case4 ih => exact ih.trans (List.suffix_cons ..)

theorem read_suffix : (read profile c cs).2 <:+ cs := by
  unfold read
  split
  case isTrue => exact List.suffix_rfl
  case isFalse =>
    split
    case h_1 => exact (closed_suffix _).trans (behind_suffix ..)
    case h_2 =>
      split
      case h_1 => exact (List.dropWhile_suffix _).trans (behind_suffix ..)
      case h_2 =>
        dsimp only
        split
        case isTrue => exact closedString_suffix
        case isFalse => exact List.suffix_rfl

end SourceDocs.Chars

namespace SourceDocs

open Token (Kind)

theorem Token.WellFormed.ofChar {t : Token} (h : t.WellFormed) {c : Char} (hc : c ∈ t.chars) :
    Kind.ofChar c = t.kind := by
  unfold WellFormed at h
  cases hk : t.kind <;> simp only [hk] at h
  case text => exact h.2 c hc
  case blank => exact h.2 c hc
  case lineBreak =>
    rcases h with h | h | h <;> simp only [h, List.mem_cons, List.not_mem_nil, or_false] at hc <;>
      rcases hc with rfl | rfl <;> decide
  case symbol =>
    obtain ⟨d, hd, h⟩ := h
    obtain rfl : c = d := by simpa [h] using hc
    exact hd

namespace Buffer

variable {buf : Buffer} {i j k : Nat} {c : Char} {t : Token}

theorem slice_cons (hi : i < j) (ht : buf.tokens[i]? = some t) :
    buf.slice i j = t.chars ++ buf.slice (i + 1) j := by
  obtain ⟨hlt, rfl⟩ := Array.getElem?_eq_some_iff.mp ht
  obtain ⟨n, rfl⟩ := Nat.exists_eq_add_of_lt hi
  simp only [slice, Array.toList_extract, List.extract]
  rw [List.drop_eq_getElem_cons (by simpa using hlt), show i + n + 1 - i = n + 1 by omega,
    List.take_succ_cons, List.flatMap_cons, show i + n + 1 - (i + 1) = n by omega]
  rfl

theorem slice_of_le (h : j ≤ i) : buf.slice i j = [] := by
  simp [slice, Array.extract_empty_of_stop_le_start h]

theorem slice_append_slice (hij : i ≤ j) (hjk : j ≤ k) :
    buf.slice i j ++ buf.slice j k = buf.slice i k := by
  rw [slice, slice, slice, ← List.flatMap_append, ← Array.toList_append,
    Array.extract_append_extract, Nat.min_eq_left hij, Nat.max_eq_right hjk]

def textFrom (buf : Buffer) (i : Nat) : List Char :=
  buf.slice i buf.size

theorem textFrom_token (ht : buf.tokens[i]? = some t) :
    buf.textFrom i = t.chars ++ buf.textFrom (i + 1) :=
  slice_cons (lt_size_of_token ht) ht

theorem textFrom_end (h : buf.size ≤ i) : buf.textFrom i = [] :=
  slice_of_le h

theorem exists_token (h : i < buf.size) : ∃ t, buf.tokens[i]? = some t :=
  ⟨_, Array.getElem?_eq_getElem h⟩

namespace WellFormed

variable (hb : buf.WellFormed)

include hb

theorem chars_of_isChar (h : buf.isChar i c = true) :
    ∃ t, buf.tokens[i]? = some t ∧ t.chars = [c] := by
  obtain ⟨t, ht, hk, hc⟩ := isChar_iff.mp h
  have hw := hb.token ht
  simp only [Token.WellFormed, hk] at hw
  obtain ⟨d, -, hd⟩ := hw
  obtain rfl : d = c := by simpa [hd] using hc
  exact ⟨t, ht, hd⟩

theorem kind?_of_mem (hc : c ∈ buf.chars i) : buf.kind? i = some (Kind.ofChar c) := by
  unfold chars at hc
  cases ht : buf.tokens[i]?
  case none => simp [ht] at hc
  case some t =>
    rw [ht, Option.map_some, Option.getD_some] at hc
    rw [kind?, ht, Option.map_some, (hb.token ht).ofChar hc]

theorem head?_slice (hij : i < j) (hj : j ≤ buf.size) :
    (buf.slice i j).head? = (buf.chars i).head? := by
  obtain ⟨t, ht⟩ := exists_token (hij.trans_le hj)
  obtain ⟨d, w, hd, -⟩ := (hb.token ht).ofChar_head
  simp [slice_cons hij ht, chars, ht, hd]

theorem getLast?_slice (hij : i < j) (hj : j ≤ buf.size) :
    (buf.slice i j).getLast? = (buf.chars (j - 1)).getLast? := by
  obtain ⟨t, ht⟩ := exists_token (show j - 1 < buf.size by omega)
  obtain ⟨d, w, hd, -⟩ := (hb.token ht).ofChar_head
  have hlast : buf.slice (j - 1) j = t.chars := by
    rw [slice_cons (by omega) ht, slice_of_le (by omega), List.append_nil]
  rw [← slice_append_slice (show i ≤ j - 1 by omega) (Nat.sub_le ..), hlast,
    List.getLast?_append_of_ne_nil _ (by simp [hd]), chars, ht, Option.map_some, Option.getD_some]

theorem ofChar_of_isChar (h : buf.isChar i c = true) : Kind.ofChar c = .symbol := by
  obtain ⟨t, ht, hk, hc⟩ := isChar_iff.mp h
  rw [(hb.token ht).ofChar (List.mem_of_mem_head? hc), hk]

theorem textFrom_isChar (h : buf.isChar i c = true) :
    buf.textFrom i = c :: buf.textFrom (i + 1) := by
  obtain ⟨t, ht, hc⟩ := hb.chars_of_isChar h
  rw [textFrom_token ht, hc, List.singleton_append]

-- A symbol is never a part of a longer token.
theorem isChar_of_textFrom {cs : List Char} (hc : Kind.ofChar c = .symbol)
    (h : buf.textFrom i = c :: cs) : buf.isChar i c = true := by
  rcases Nat.lt_or_ge i buf.size with hlt | hge
  case inr =>
    rw [textFrom_end hge] at h
    cases h
  case inl =>
    obtain ⟨t, ht⟩ := exists_token hlt
    obtain ⟨d, ds, hd, hk⟩ := (hb.token ht).ofChar_head
    rw [textFrom_token ht, hd] at h
    obtain ⟨rfl, -⟩ := List.cons.inj h
    exact isChar_iff.mpr ⟨t, ht, hk ▸ hc, by simp [hd]⟩

theorem textFrom_spells {cs : List Char} (h : buf.spells i cs = true) :
    buf.textFrom i = cs ++ buf.textFrom (i + cs.length) := by
  induction cs generalizing i
  case nil => rfl
  case cons c cs ih =>
    rw [spells, Bool.and_eq_true] at h
    rw [hb.textFrom_isChar h.1, ih h.2, List.cons_append, List.length_cons, Nat.add_right_comm,
      Nat.add_assoc]

theorem spells_eq {cs : List Char} (hcs : ∀ c ∈ cs, Kind.ofChar c = .symbol) :
    buf.spells i cs = cs.isPrefixOf (buf.textFrom i) := by
  rw [Bool.eq_iff_iff, List.isPrefixOf_iff_prefix]
  constructor
  case mp => exact fun h => hb.textFrom_spells h ▸ List.prefix_append ..
  case mpr =>
    induction cs generalizing i
    case nil => exact fun _ => rfl
    case cons c cs ih =>
      rintro ⟨rest, h⟩
      have hc := hb.isChar_of_textFrom (hcs c (.head _)) h.symm
      rw [hb.textFrom_isChar hc] at h
      rw [spells, hc, Bool.true_and]
      exact ih (fun d hd => hcs d (.tail _ hd)) ⟨rest, (List.cons.inj h).2⟩

theorem matchesAt_eq {s : String} (hs : IsSymbolic s) :
    buf.matchesAt i s = s.toList.isPrefixOf (buf.textFrom i) := by
  rw [matchesAt_symbols hb hs.2, hb.spells_eq hs.2]
  simp [hs.1]

theorem afterChars_eq {s : String} (hs : IsSymbolic s) (h : buf.matchesAt i s = true) :
    buf.afterChars i s.utf8ByteSize = i + s.toList.length := by
  have hskip : buf.skip? i s false = some (i + s.toList.length) := by
    rw [Skip.skip?_eq hb hs, hb.spells_eq hs.2, ← hb.matchesAt_eq hs, if_pos h]
  exact afterChars_of_skip? (fun c hc => ascii_of_symbol (hs.2 c hc)) hskip

theorem textFrom_afterChars {s : String} (hs : IsSymbolic s) (h : buf.matchesAt i s = true)
    {cs : List Char} (hc : buf.textFrom i = c :: cs) :
    buf.textFrom (buf.afterChars i s.utf8ByteSize) = Chars.behind s cs := by
  have hspells : buf.spells i s.toList = true := by
    rwa [hb.spells_eq hs.2, ← hb.matchesAt_eq hs]
  have hpos := List.length_pos_iff.mpr hs.1
  have := hb.textFrom_spells hspells
  rw [hc] at this
  rw [hb.afterChars_eq hs h, Chars.behind]
  calc buf.textFrom (i + s.toList.length)
    _ = (c :: cs).drop s.toList.length := by rw [this, List.drop_left]
    _ = cs.drop (s.toList.length - 1) := by
      obtain ⟨n, hn⟩ := Nat.exists_eq_add_of_lt hpos
      rw [hn, Nat.zero_add, List.drop_succ_cons, Nat.add_sub_cancel]

end WellFormed
end Buffer

namespace Skip

open Chars

variable {profile : Profile} {buf : Buffer} {i : Nat} {t : Token}

theorem matchesAt_eq_skip? {s : String} : buf.matchesAt i s = (buf.skip? i s false).isSome := by
  simp [Buffer.matchesAt, Buffer.skip?]

section SymbolsAt

variable (hp : profile.Punctuated) (hb : buf.WellFormed)

include hp hb

theorem blockSymbols?_eq : blockSymbols? profile buf i =
    Chars.blockSymbols? profile (buf.textFrom i) :=
  List.find?_congr fun _ hs => hb.matchesAt_eq (hp.block hs).1.isSymbolic

theorem lineSymbol?_eq : lineSymbol? profile buf i =
    Chars.lineSymbol? profile (buf.textFrom i) :=
  List.find?_congr fun _ hs => hb.matchesAt_eq (hp.line hs).isSymbolic

end SymbolsAt

section Plain

variable {c : Char} {cs w : List Char}

theorem not_prefix_plain {s : String} (hs : IsSymbolic s) (hc : Token.Kind.ofChar c ≠ .symbol) :
    s.toList.isPrefixOf (c :: cs) = false := by
  obtain ⟨d, ds, hd⟩ := List.exists_cons_of_ne_nil hs.1
  have hne : d ≠ c := fun h => hc (h ▸ hs.2 d (by simp [hd]))
  rw [hd, List.isPrefixOf, beq_eq_false_iff_ne.mpr hne, Bool.false_and]

theorem blockSymbols?_plain (hp : profile.Punctuated) (hc : Token.Kind.ofChar c ≠ .symbol) :
    Chars.blockSymbols? profile (c :: cs) = none :=
  List.find?_eq_none.mpr fun _ hs => by simp [not_prefix_plain (hp.block hs).1.isSymbolic hc]

theorem lineSymbol?_plain (hp : profile.Punctuated) (hc : Token.Kind.ofChar c ≠ .symbol) :
    Chars.lineSymbol? profile (c :: cs) = none :=
  List.find?_eq_none.mpr fun _ hs => by simp [not_prefix_plain (hp.line hs).isSymbolic hc]

theorem nested?_plain (hp : profile.Punctuated) (hc : Token.Kind.ofChar c ≠ .symbol) :
    nested? profile (c :: cs) = none := by
  simp [nested?, blockSymbols?_plain hp hc]

theorem closed_append_plain (hp : profile.Punctuated)
    (hw : ∀ c ∈ w, Token.Kind.ofChar c ≠ .symbol) {closer : String} {outer : List String}
    (hs : IsSymbolic closer) :
    closed profile (w ++ cs) (closer :: outer) = closed profile cs (closer :: outer) := by
  induction w
  case nil => rfl
  case cons c w ih =>
    have hc := hw c (.head _)
    rw [List.cons_append, closed, not_prefix_plain hs hc, nested?_plain hp hc]
    simpa using ih fun d hd => hw d (.tail _ hd)

theorem closedString_append_plain {quote : Char} (hq : Token.Kind.ofChar quote = .symbol)
    (hw : ∀ c ∈ w, Token.Kind.ofChar c ≠ .symbol) :
    closedString quote (w ++ cs) = closedString quote cs := by
  induction w
  case nil => rfl
  case cons c w ih =>
    have hc := hw c (.head _)
    have hquote : c ≠ quote := fun h => hc (h ▸ hq)
    have hslash : c ≠ '\\' := fun h => hc (h ▸ rfl)
    rw [List.cons_append, closedString, if_neg hquote, if_neg hslash]
    exact ih fun d hd => hw d (.tail _ hd)

end Plain

section Tokens

variable (hb : buf.WellFormed)

include hb

-- A token is a symbol, or it has none.
theorem textFrom_step (hi : i < buf.size) :
    (∃ c, buf.isChar i c = true ∧ buf.textFrom i = c :: buf.textFrom (i + 1)) ∨
      ∃ c w, (∀ d ∈ c :: w, Token.Kind.ofChar d ≠ .symbol) ∧
        buf.textFrom i = c :: w ++ buf.textFrom (i + 1) := by
  obtain ⟨t, ht⟩ := Buffer.exists_token hi
  by_cases hk : t.kind = .symbol
  case pos =>
    have hw := hb.token ht
    simp only [Token.WellFormed, hk] at hw
    obtain ⟨c, -, hc⟩ := hw
    have hchar : buf.isChar i c = true := Buffer.isChar_iff.mpr ⟨t, ht, hk, by simp [hc]⟩
    exact .inl ⟨c, hchar, hb.textFrom_isChar hchar⟩
  case neg =>
    obtain ⟨c, w, hc, -⟩ := (hb.token ht).ofChar_head
    refine .inr ⟨c, w, fun d hd => ?_, hc ▸ Buffer.textFrom_token ht⟩
    rwa [(hb.token ht).ofChar (hc ▸ hd)]

theorem textFrom_ne_nil (hi : i < buf.size) : ∃ c cs, buf.textFrom i = c :: cs := by
  obtain ⟨t, ht⟩ := Buffer.exists_token hi
  obtain ⟨c, cs, hc, -⟩ := (hb.token ht).ofChar_head
  exact ⟨c, cs ++ buf.textFrom (i + 1), by rw [Buffer.textFrom_token ht, hc, List.cons_append]⟩

theorem textFrom_lineEnd : buf.textFrom (Buffer.seek buf.isLineBreak i buf.size) =
    (buf.textFrom i).dropWhile (Token.Kind.ofChar · ≠ .lineBreak) := by
  generalize hsize : buf.size = stop
  fun_induction Buffer.seek buf.isLineBreak i stop
  case case1 i hi hbreak =>
    obtain ⟨t, ht⟩ := Buffer.exists_token (hsize ▸ hi)
    obtain ⟨c, cs, hc, hk⟩ := (hb.token ht).ofChar_head
    have hbreak : t.kind = .lineBreak := by
      simpa [Buffer.isLineBreak, Buffer.kind?, ht] using hbreak
    rw [Buffer.textFrom_token ht, hc, List.cons_append, List.dropWhile_cons_of_neg]
    simp [hk, hbreak]
  case case2 i hi hbreak ih =>
    obtain ⟨t, ht⟩ := Buffer.exists_token (hsize ▸ hi)
    have hbreak : t.kind ≠ .lineBreak := by
      simpa [Buffer.isLineBreak, Buffer.kind?, ht] using hbreak
    rw [ih, Buffer.textFrom_token ht, List.dropWhile_append_of_pos fun c hc => ?_]
    simpa [(hb.token ht).ofChar hc] using hbreak
  case case3 hi => rw [Buffer.textFrom_end (by omega), List.dropWhile_nil]

theorem textFrom_closeString {quote : Char} (hq : Token.Kind.ofChar quote = .symbol) :
    buf.textFrom (closeString buf quote i) = closedString quote (buf.textFrom i) := by
  fun_induction closeString buf quote i
  case case1 hc => rw [hb.textFrom_isChar hc, closedString, if_pos rfl]
  case case2 i hi hne hc ih =>
    have hquote : '\\' ≠ quote := fun h => hne (h ▸ hc)
    rw [ih, hb.textFrom_isChar hc, closedString, if_neg hquote, if_pos rfl]
    rcases Nat.lt_or_ge (i + 1) buf.size with hlt | hge
    case inr =>
      rw [Nat.min_eq_right (by omega), Buffer.textFrom_end hge, Buffer.textFrom_end (Nat.le_refl _),
        List.tail_nil]
    case inl =>
      -- Of a longer token only the first character is escaped, but it has no symbols anyway.
      rw [Nat.min_eq_left (by omega)]
      rcases textFrom_step hb hlt with ⟨d, -, hd⟩ | ⟨e, w, hw, hd⟩
      case inl => rw [hd, List.tail_cons]
      case inr =>
        rw [hd, List.cons_append, List.tail_cons]
        exact (closedString_append_plain hq fun e he => hw e (.tail _ he)).symm
  case case3 i hi hne hslash ih =>
    rw [ih]
    rcases textFrom_step hb hi with ⟨c, hchar, hc⟩ | ⟨d, w, hw, hc⟩
    case inl =>
      have hquote : c ≠ quote := fun h => hne (h ▸ hchar)
      have hslash : c ≠ '\\' := fun h => hslash (h ▸ hchar)
      rw [hc, closedString, if_neg hquote, if_neg hslash]
    case inr => rw [hc, closedString_append_plain hq hw]
  case case4 => rw [Buffer.textFrom_end (by omega), closedString]

variable (hp : profile.Punctuated)

include hp

theorem textFrom_closeComments {closers : List String} (hc : ∀ s ∈ closers, IsSymbolic s) :
    buf.textFrom (closeComments profile buf i closers) =
      closed profile (buf.textFrom i) closers := by
  fun_induction closeComments profile buf i closers
  case case1 => rw [closed]
  case case2 i closer outer hi j hj ih =>
    have hcl := hc closer (.head _)
    have hm : buf.matchesAt i closer = true := by rw [matchesAt_eq_skip?, hj]; rfl
    obtain ⟨c, cs, hcs⟩ := textFrom_ne_nil hb hi
    have hj := Buffer.afterChars_of_skip? (fun c hc => ascii_of_symbol (hcl.2 c hc)) hj
    rw [ih fun s hs => hc s (.tail _ hs), ← hj, hb.textFrom_afterChars hcl hm hcs, hcs, closed,
      if_pos (by rwa [← hcs, ← hb.matchesAt_eq hcl])]
  case case3 i closer outer hi hn s hs ih =>
    have hcl := hc closer (.head _)
    have hm : buf.matchesAt i closer = false := by rw [matchesAt_eq_skip?, hn]; rfl
    obtain ⟨c, cs, hcs⟩ := textFrom_ne_nil hb hi
    rw [dite_eq_ite] at hs
    have hopen : blockSymbols? profile buf i = some s := by
      split at hs
      case isTrue => exact hs
      case isFalse => cases hs
    have hs' := hp.block (List.mem_of_find?_eq_some hopen)
    have hopens : buf.matchesAt i s.opener = true := by simpa using List.find?_some hopen
    rw [ih ?_, hb.textFrom_afterChars hs'.1.isSymbolic hopens hcs, hcs, closed,
      if_neg (by rw [← hcs, ← hb.matchesAt_eq hcl, hm]; simp)]
    · rw [← hcs, nested?, ← blockSymbols?_eq hp hb, hs]
    · exact List.forall_mem_cons.mpr ⟨hs'.2.isSymbolic, hc⟩
  case case4 i closer outer hi hn hs ih =>
    have hcl := hc closer (.head _)
    have hm : buf.matchesAt i closer = false := by rw [matchesAt_eq_skip?, hn]; rfl
    rw [dite_eq_ite] at hs
    rw [ih hc]
    rcases textFrom_step hb hi with ⟨c, -, hcs⟩ | ⟨d, w, hw, hcs⟩
    case inl =>
      rw [hcs, closed, if_neg (by rw [← hcs, ← hb.matchesAt_eq hcl, hm]; simp), ← hcs,
        nested?, ← blockSymbols?_eq hp hb, hs]
    case inr => rw [hcs, closed_append_plain hp hw hcl]
  case case5 hi => rw [Buffer.textFrom_end (by omega), closed]

variable {c : Char} {cs : List Char}

theorem textFrom_blockComment? (hi : buf.textFrom i = c :: cs) :
    (blockComment? profile buf i).map buf.textFrom =
      (Chars.blockSymbols? profile (c :: cs)).map fun s =>
        closed profile (behind s.opener cs) [s.closer] := by
  rw [blockComment?, Option.map_map, ← hi, ← blockSymbols?_eq hp hb]
  refine Option.map_congr fun s hs => ?_
  have hs' := hp.block (List.mem_of_find?_eq_some hs)
  have hopens : buf.matchesAt i s.opener = true := by simpa using List.find?_some hs
  rw [Function.comp_apply, textFrom_closeComments hb hp (by simpa using hs'.2.isSymbolic),
    hb.textFrom_afterChars hs'.1.isSymbolic hopens hi]

theorem textFrom_lineComment? (hi : buf.textFrom i = c :: cs) :
    (lineComment? profile buf i).map buf.textFrom =
      (Chars.lineSymbol? profile (c :: cs)).map fun s =>
        (behind s cs).dropWhile (Token.Kind.ofChar · ≠ .lineBreak) := by
  rw [lineComment?, Option.map_map, ← hi, ← lineSymbol?_eq hp hb]
  refine Option.map_congr fun s hs => ?_
  have hs' := hp.line (List.mem_of_find?_eq_some hs)
  rw [Function.comp_apply, textFrom_lineEnd hb,
    hb.textFrom_afterChars hs'.isSymbolic (List.find?_some hs) hi]

omit hp in
theorem textFrom_string? (hi : buf.textFrom i = c :: cs) :
    (string? buf i).map buf.textFrom =
      if c = '"' ∨ c = '\x27' then some (closedString c cs) else none := by
  unfold string?
  by_cases hk : Token.Kind.ofChar c = .symbol
  case pos =>
    have hchar := hb.isChar_of_textFrom hk hi
    have hs : buf.symbol? i = some c := by simpa [Buffer.isChar] using hchar
    obtain rfl := (List.cons.inj (hi.symm.trans (hb.textFrom_isChar hchar))).2
    simp only [hs]
    split
    case isTrue => rw [Option.map_some, textFrom_closeString hb hk]
    case isFalse => rfl
  case neg =>
    have hs : buf.symbol? i = none := by
      rw [Option.eq_none_iff_forall_ne_some]
      intro d hd
      have hchar : buf.isChar i d = true := by simpa [Buffer.isChar] using hd
      obtain rfl := (List.cons.inj (hi.symm.trans (hb.textFrom_isChar hchar))).1
      exact hk (hb.ofChar_of_isChar hchar)
    rw [hs, if_neg]
    · rfl
    · rintro (rfl | rfl) <;> exact hk (by decide)

end Tokens

end Skip
end SourceDocs

import SourceDocs.Proofs.ListCloser
import SourceDocs.Proofs.Signature.Pointer

namespace SourceDocs

open Prototype

namespace Prototype

variable {profile : Profile} {buf : Buffer} {roles : Roles} {start stop i j k n : Nat}

theorem listOpening?_eq_none (h : ∀ k, ∀ c ∈ ['(', '[', '\x7b'], buf.isChar k c = false) (i : Nat) :
    listOpening? profile buf i = none := by
  fun_induction listOpening? profile buf i
  case case1 ih => exact ih
  case case2 i _ _ hc => simp [h i '('] at hc
  case case3 i _ _ _ hc => simp [h i '['] at hc
  case case4 i _ _ _ _ hc => simp [h i '\x7b'] at hc
  case case5 ih => exact ih
  case case6 => rfl

def releaseToken (buf : Buffer) (roles : Roles) (i : Nat) : Roles :=
  if Skip.isPointer buf i then roles.set i (some .namePrefix)
  else if buf.isBlank i then roles.set i none
  else roles

theorem get_releaseToken (hk : k < roles.slots.size) : (releaseToken buf roles i).get k =
    if k = i then
      if Skip.isPointer buf k then some .namePrefix
      else if buf.isBlank k then none
      else roles.get k
    else roles.get k := by
  unfold releaseToken
  by_cases hki : k = i
  case pos =>
    subst hki
    rw [if_pos rfl]
    split
    case isTrue => rw [Roles.get_set, if_pos ⟨rfl, hk⟩]
    case isFalse =>
      split
      case isTrue => rw [Roles.get_set, if_pos ⟨rfl, hk⟩]
      case isFalse => rfl
  case neg =>
    have hset (role : Option Role) : (roles.set i role).get k = roles.get k := by
      rw [Roles.get_set, if_neg fun h => hki h.1]
    rw [if_neg hki]
    split
    case isTrue => exact hset _
    case isFalse =>
      split
      case isTrue => exact hset _
      case isFalse => rfl

theorem size_releaseToken : (releaseToken buf roles i).slots.size = roles.slots.size := by
  unfold releaseToken
  split
  case isTrue => exact Roles.size_set ..
  case isFalse =>
    split
    case isTrue => exact Roles.size_set ..
    case isFalse => rfl

theorem get_foldl_releaseToken (hk : k < roles.slots.size) :
    ((List.range' i n).foldl (releaseToken buf) roles).get k =
      if i ≤ k ∧ k < i + n then
        if Skip.isPointer buf k then some .namePrefix
        else if buf.isBlank k then none
        else roles.get k
      else roles.get k := by
  induction n generalizing i roles
  case zero => simp
  case succ n hi =>
    rw [List.range'_succ, List.foldl_cons, hi (by rwa [size_releaseToken]), get_releaseToken hk]
    by_cases hki : k = i
    case pos =>
      have hout : ¬(i + 1 ≤ k ∧ k < i + 1 + n) := by omega
      have hin : i ≤ k ∧ k < i + (n + 1) := by omega
      rw [if_neg hout, if_pos hki, if_pos hin]
    case neg =>
      have hiff : i + 1 ≤ k ∧ k < i + 1 + n ↔ i ≤ k ∧ k < i + (n + 1) := by omega
      simp only [hki, ↓reduceIte, hiff]

-- The walk back passes pointer symbols and blanks, and stops behind the type.
theorem pointerStart_of_between (hi : start < i) (hij : i ≤ j)
    (hp : ∀ k, i ≤ k → k < j → Skip.isPointer buf k = true ∨ buf.isBlank k = true)
    (hn : Skip.isPointer buf (i - 1) = false ∧ buf.isBlank (i - 1) = false) :
    pointerStart buf start j = i := by
  induction j using Nat.strongRecOn with
  | ind j ih =>
    have hle := Buffer.retreat_le buf.isBlank (start + 1) j
    have hge : i ≤ Buffer.retreat buf.isBlank (start + 1) j := by
      by_contra hlt
      have := Buffer.of_retreat_le (p := buf.isBlank) (i := start + 1) (j := j) (k := i - 1)
        (by omega) (by omega)
      simp [hn.2] at this
    have hstop (hlt : start + 1 < Buffer.retreat buf.isBlank (start + 1) j) :=
      Buffer.not_of_lt_retreat hlt
    rw [pointerStart]
    generalize Buffer.retreat buf.isBlank (start + 1) j = m at *
    rcases Nat.lt_or_eq_of_le hge with hlt | rfl
    case inl =>
      have hm : Skip.isPointer buf (m - 1) = true := by
        refine (hp (m - 1) (by omega) (by omega)).resolve_right ?_
        simp [hstop (by omega)]
      rw [if_pos ⟨by omega, hm⟩]
      exact ih (m - 1) (by omega) (by omega) fun k hk hk' => hp k hk (by omega)
    case inr => rw [if_neg (by simp [hn.1])]

theorem typeEnds_word (hb : buf.WellFormed) {ts : List Token} (h : buf.Holds i ts)
    (hp : ∀ t ∈ ts, t.IsPlain) (hs : i + ts.length ≤ stop) {q : Nat}
    (hend : typeEnds buf stop q (i + ts.length) = (q, i + ts.length)) :
    typeEnds buf stop q i = (q, i + ts.length) := by
  induction ts generalizing i
  case nil => exact hend
  case cons t ts hi =>
    have ht := hp t (.head _)
    have hchar {c : Char} := Buffer.not_isChar_plain h.1 (.inl ht) (c := c)
    simp only [List.length_cons] at hs hend ⊢
    rw [typeEnds, if_pos (by omega), if_neg (by simp [hchar (c := '.')]),
      if_neg (by simp [Buffer.matchesAt_doubleColon hb, hchar (c := ':')]),
      if_pos (Buffer.isIdentifier_of_plain h.1 ht)]
    have he : i + 1 + ts.length = i + (ts.length + 1) := by omega
    rw [hi h.2 (fun u hu => hp u (.tail _ hu)) (by omega) (by rw [he, hend]), he]

-- Neither a pointer symbol nor a blank belongs to the name of a type.
theorem typeEnds_between (hb : buf.WellFormed) {q : Nat}
    (h : Skip.isPointer buf i = true ∨ buf.isBlank i = true) : typeEnds buf stop q i = (q, i) := by
  have hid : isIdentifier buf i = false ∧ buf.isChar i '.' = false ∧ buf.isChar i ':' = false := by
    rcases h with h | h
    case inl =>
      unfold Skip.isPointer at h
      split at h
      case h_2 => cases h
      case h_1 c hc =>
        have hchar : buf.isChar i c = true := by simp [Buffer.isChar, hc]
        have hne (e : Char) (he : e ≠ '*' ∧ e ≠ '&' ∧ e ≠ '^') : buf.isChar i e = false := by
          rw [Bool.eq_false_iff]
          intro hi
          obtain rfl := Buffer.eq_of_isChar hchar hi
          simp [he] at h
        simp [isIdentifier, Buffer.not_isText_of_isChar hchar, hne '_' (by decide),
          hne '.' (by decide), hne ':' (by decide)]
    case inr =>
      have hsym := Buffer.symbol?_eq_none_of_isBlank h
      simp [isIdentifier, Buffer.isText_eq_false_of_isBlank h, Buffer.isChar, hsym]
  rw [typeEnds]
  simp [hid, Buffer.matchesAt_doubleColon hb]

-- From `i` to `stop` stand a type and then only pointer symbols and blanks, with a pointer symbol
-- at the end.
structure PointerType (buf : Buffer) (w : PlainWord) (i stop : Nat) : Prop where
  type : buf.Holds i w.tokens
  lt : i + w.size < stop
  between : ∀ k, i + w.size ≤ k → k < stop → Skip.isPointer buf k = true ∨ buf.isBlank k = true
  last : Skip.isPointer buf (stop - 1) = true
  no_colon : buf.isChar stop ':' = false
  le_size : stop ≤ buf.size

theorem get_markDeclaredType (profile : Profile) (hb : buf.WellFormed) {w : PlainWord}
    (h : PointerType buf w i stop) (hr : roles.slots.size = buf.size) (hk : k < buf.size) :
    (markDeclaredType profile buf roles ⟨i, stop, false⟩).get k =
      if i ≤ k ∧ k < i + w.size then some .type
      else if i + w.size ≤ k ∧ k < stop then
        if Skip.isPointer buf k then some .namePrefix else none
      else roles.get k := by
  have hpos := w.size_pos
  have hlt := h.lt
  have hsize := h.le_size
  have hseek : Buffer.seek (isIdentifier buf) i stop = i := by
    have ⟨t, ht, hi⟩ := h.type.token (Nat.le_refl i) (Nat.lt_add_of_pos_right hpos)
    exact Buffer.seek_hit (by omega) (Buffer.isIdentifier_of_plain hi (w.isPlain ht))
  have hends : typeEnds buf stop i i = (i, i + w.size) :=
    typeEnds_word hb h.type (fun t ht => w.isPlain ht) (Nat.le_of_lt hlt)
      (typeEnds_between hb (h.between _ (Nat.le_refl _) hlt))
  have hstart : pointerStart buf i stop = i + w.size := by
    have ⟨t, ht, hi⟩ := h.type.token (k := i + w.size - 1) (by omega)
      (by change _ < i + w.size; omega)
    exact pointerStart_of_between (by omega) (Nat.le_of_lt hlt) h.between
      ⟨Skip.isPointer_eq_false_of_plain hi (w.isPlain ht),
        Buffer.isBlank_eq_false_of_plain hi (w.isPlain ht)⟩
  have hany : (List.range' (i + w.size) (stop - (i + w.size))).any (Skip.isPointer buf) = true :=
    List.any_eq_true.mpr ⟨stop - 1, by simp only [List.mem_range'_1]; omega, h.last⟩
  have htype : markType profile buf roles i stop =
      markTypeSuffix profile buf (roles.setRange i (i + w.size) (some .type)) stop (i + w.size) := by
    rw [markType, hseek, hends, Roles.setRange_self, Roles.setRange_self]
  have hframe : Roles.SameOutside profile buf (i + w.size) stop
      (roles.setRange i (i + w.size) (some .type)) (markType profile buf roles i stop) :=
    htype ▸ (typeRun_markTypeSuffix profile hb ..).sameOutside profile (.inr ⟨rfl, h.no_colon⟩)
  unfold markDeclaredType
  simp only [hstart, hany, ↓reduceIte]
  change ((List.range' _ _).foldl (releaseToken buf) _).get k = _
  rw [get_foldl_releaseToken (by rw [hframe.size_eq, Roles.size_setRange, hr]; exact hk)]
  by_cases hin : i + w.size ≤ k ∧ k < stop
  case pos =>
    have hrange : i + w.size ≤ k ∧ k < i + w.size + (stop - (i + w.size)) := by omega
    have hout : ¬(i ≤ k ∧ k < i + w.size) := by omega
    rw [if_pos hrange, if_neg hout, if_pos hin]
    by_cases hp : Skip.isPointer buf k = true
    case pos => rw [if_pos hp, if_pos hp]
    case neg => rw [if_neg hp, if_neg hp, if_pos ((h.between k hin.1 hin.2).resolve_left hp)]
  case neg =>
    have hrange : ¬(i + w.size ≤ k ∧ k < i + w.size + (stop - (i + w.size))) := by omega
    rw [if_neg hrange, if_neg hin, hframe.get_eq k (by omega), Roles.get_setRange]
    simp only [hr, hk, and_true]

end Prototype

namespace PointerSymbol

def marked (ps : List (Gap × PointerSymbol)) : List Marked :=
  ps.flatMap fun p => Declaration.tagged none p.1.tokens ++ [(p.2.token, some .namePrefix)]

theorem length_marked (ps : List (Gap × PointerSymbol)) :
    (marked ps).length = (tokens ps).length := by
  simp [marked, tokens, List.length_flatMap]

theorem marked_shows {buf : Buffer} {roles : Roles} {i : Nat} {ps : List (Gap × PointerSymbol)}
    (h : buf.Holds i (tokens ps)) (hr : ∀ k, i ≤ k → k < i + (tokens ps).length →
      roles.get k = if Skip.isPointer buf k then some .namePrefix else none) :
    Shows buf roles i (marked ps) := by
  induction ps generalizing i
  case nil => trivial
  case cons p ps hi =>
    rw [tokens_cons, Buffer.holds_append] at h
    obtain ⟨hgap, hsymbol, hrest⟩ := h
    change buf.tokens[i + p.1.size]? = _ at hsymbol
    change buf.Holds (i + p.1.size + 1) _ at hrest
    rw [length_tokens_cons] at hr
    have hcons : marked (p :: ps) =
        Declaration.tagged none p.1.tokens ++ (p.2.token, some .namePrefix) :: marked ps := by
      simp [marked]
    rw [hcons, Shows.append, Declaration.length_tagged]
    refine ⟨.of_holds hgap fun k hk hl => ?gap, hsymbol, ?symbol, ?rest⟩
    case gap =>
      change k < i + p.1.size at hl
      have ⟨t, ht, htoken⟩ := hgap.token hk hl
      have hblank : buf.isBlank k = true := Buffer.isBlank_iff.mpr ⟨t, htoken, Gap.kind_of_mem ht⟩
      rw [hr k hk (by omega), Skip.isPointer_eq_false_of_isBlank hblank]
      rfl
    case symbol =>
      have hget := hr (i + p.1.size) (by omega) (by omega)
      rwa [Buffer.isPointer_pointer hsymbol] at hget
    case rest =>
      change Shows buf roles (i + p.1.size + 1) (marked ps)
      exact hi hrest fun k hk hl => hr k (by omega) (by omega)

end PointerSymbol

namespace PointerDeclaration

open Declaration (tagged)

variable (d : PointerDeclaration)

def modifiersMarked : List (Ident × Space) → List Marked
  | [] => []
  | m :: ms =>
    tagged (some .modifier) m.1.tokens ++ (⟨.blank, m.2.chars⟩, none) :: modifiersMarked ms

def coreMarked : List Marked :=
  tagged (some .type) d.type.tokens ++ (PointerSymbol.marked d.pointers ++
    (tagged none d.after.tokens ++ tagged (some .name) d.name.tokens))

def marked : List Marked :=
  modifiersMarked d.modifiers ++ d.coreMarked

theorem length_modifiersMarked (ms : List (Ident × Space)) :
    (modifiersMarked ms).length = (Declaration.wordTokens ms).length := by
  induction ms
  case nil => rfl
  case cons m ms hi =>
    simp [modifiersMarked, Declaration.wordTokens_cons, Declaration.length_tagged, hi]

theorem length_marked : d.marked.length = d.tokens.length := by
  simp [marked, coreMarked, tokens, coreTokens, length_modifiersMarked, Declaration.length_tagged,
    PointerSymbol.length_marked]

variable {d} {profile : Profile} {buf : Buffer} {roles : Roles} {i : Nat} {ms : List (Ident × Space)}

-- The last token of the pointer symbols is one of them.
theorem last_pointers (d : PointerDeclaration) :
    ∃ p : PointerSymbol, p.token ∈ (PointerSymbol.tokens d.pointers).getLast? := by
  obtain ⟨ps, p, hps⟩ := List.eq_nil_or_concat'  d.pointers |>.resolve_left d.pointers_ne_nil
  refine ⟨p.2, ?_⟩
  simp [hps, PointerSymbol.tokens]

theorem Ends.pointerType (h : d.Ends buf i []) :
    PointerType buf d.type.toPlain i (d.typeStop i) := by
  obtain ⟨hpointers, hafter, hname⟩ := h.rest
  have hsize := h.size_core
  obtain ⟨p, hp⟩ := d.last_pointers
  have hpos : 0 < (PointerSymbol.tokens d.pointers).length :=
    List.length_pos_iff.mpr fun hnil => by simp [hnil] at hp
  refine ⟨h.core.1, Nat.lt_add_of_pos_right hpos, fun k hk hl => ?between, ?last, ?no_colon,
    ?le_size⟩
  case between =>
    obtain ⟨t, ht, htoken⟩ := hpointers.token hk hl
    rcases PointerSymbol.token_or_blank ht with ⟨q, rfl⟩ | hblank
    case inl => exact .inl (Buffer.isPointer_pointer htoken)
    case inr => exact .inr (Buffer.isBlank_iff.mpr ⟨t, htoken, hblank⟩)
  case last => exact Buffer.isPointer_pointer (hpointers.last hp)
  case no_colon =>
    have hpos := d.name.size_pos
    by_cases hg : d.after.size = 0
    case pos =>
      rw [nameStart, hg, Nat.add_zero] at hname
      obtain ⟨t, ht, htoken⟩ := hname.token (Nat.le_refl _) (Nat.lt_add_of_pos_right hpos)
      exact Buffer.not_isChar_plain htoken (.inl (d.name.isPlain ht)) (by decide)
    case neg =>
      have hblank := (Gap.isBlank_of_holds hafter hg).2
      simp [Buffer.isChar, Buffer.symbol?_eq_none_of_isBlank hblank]
  case le_size =>
    unfold nameStart at hsize
    omega

-- The roles of a declaration without modifiers.
theorem get_core (hb : buf.WellFormed) (h : d.Ends buf i []) (hr : roles.slots.size = buf.size)
    (hk : k < buf.size) :
    (markWords profile buf roles (d.places i [])).get k =
      if d.nameStart i ≤ k then some .name
      else if i ≤ k ∧ k < i + d.type.size then some .type
      else if i + d.type.size ≤ k ∧ k < d.typeStop i then
        if Skip.isPointer buf k then some .namePrefix else none
      else roles.get k := by
  have htype := h.pointerType
  have hname := h.rest.2.2
  have hsize := h.size_core
  have hdeclared : (markDeclaredType profile buf roles ⟨i, d.typeStop i, false⟩).slots.size =
      buf.size :=
    (sameOutside_markDeclaredType profile hb (d.lt_typeStop i)
      (.inr ⟨rfl, htype.no_colon⟩)).size_eq.trans hr
  have hmark : markWords profile buf roles (d.places i []) =
      (markDeclaredType profile buf roles ⟨i, d.typeStop i, false⟩).setRange (d.nameStart i)
        (d.nameStart i + d.name.size) (some .name) :=
    markName_ident profile hname
  rw [hmark, Roles.get_setRange, get_markDeclaredType profile hb htype hr hk, hdeclared, ← hsize]
  simp only [hk, and_true]
  rfl

theorem shows_core (hb : buf.WellFormed) (h : d.Ends buf i []) (hr : roles.slots.size = buf.size)
    (hn : ∀ k, i ≤ k → k < buf.size → roles.get k = none) :
    Shows buf (markWords profile buf roles (d.places i [])) i d.coreMarked := by
  have ⟨hpointers, hafter, hname⟩ := h.rest
  have hsize := h.size_core
  have hlt : i + d.type.size < d.typeStop i := h.pointerType.lt
  have hstart : d.nameStart i = d.typeStop i + d.after.size := rfl
  have hstop : d.typeStop i = i + d.type.size + (PointerSymbol.tokens d.pointers).length := rfl
  unfold coreMarked
  rw [Shows.append, Shows.append, Shows.append, Declaration.length_tagged,
    PointerSymbol.length_marked, Declaration.length_tagged]
  refine ⟨.of_holds h.core.1 fun k hk hl => ?type,
    PointerSymbol.marked_shows hpointers fun k hk hl => ?pointers,
    .of_holds hafter fun k hk hl => ?blanks, .of_holds hname fun k hk hl => ?name⟩
  case type =>
    change k < i + d.type.size at hl
    rw [get_core hb h hr (by omega), if_neg (by omega), if_pos ⟨hk, hl⟩]
  case pointers =>
    change i + d.type.size ≤ k at hk
    change k < d.typeStop i at hl
    rw [get_core hb h hr (by omega), if_neg (by omega), if_neg (by omega), if_pos ⟨hk, hl⟩]
  case blanks =>
    change d.typeStop i ≤ k at hk
    change k < d.typeStop i + d.after.size at hl
    rw [get_core hb h hr (by omega), if_neg (by omega), if_neg (by omega), if_neg (by omega),
      hn k (by omega) (by omega)]
  case name =>
    change d.nameStart i ≤ k at hk
    change k < d.nameStart i + d.name.size at hl
    rw [get_core hb h hr (by omega), if_pos hk]

theorem markWords_places_cons (m : Ident × Space) :
    markWords profile buf roles (d.places i (m :: ms)) =
      markWords profile buf (roles.setRange i (i + m.1.size) (some .modifier))
        (d.places (i + m.1.size + 1) ms) := by
  cases ms
  case nil => simp [places, markWords, markModifier]
  case cons v ms => cases ms <;> simp [places, markWords, markModifier]

theorem markWords_shows (hb : buf.WellFormed) (hs : d.Spaced) (hc : Skip.PlainBlanks profile buf)
    (hh : ∀ k, isDefault buf k = false) (h : d.Ends buf i ms) (hr : roles.slots.size = buf.size)
    (hn : ∀ k, i ≤ k → k < buf.size → roles.get k = none) :
    Shows buf (markWords profile buf roles (d.places i ms)) i
      (modifiersMarked ms ++ d.coreMarked) := by
  induction ms generalizing i roles
  case nil => exact shows_core hb h hr hn
  case cons m ms hi =>
    have ⟨hm, hblank, hrest⟩ := h.modifier
    have hlt := Buffer.lt_size_of_token hblank
    rw [markWords_places_cons]
    generalize hr₁ : roles.setRange i (i + m.1.size) _ = roles₁
    have hsize : roles₁.slots.size = buf.size := by simp [← hr₁, hr]
    have hi := hi hrest hsize fun k hk hl => by
      rw [← hr₁, Roles.get_setRange, if_neg (by omega), hn k (by omega) hl]
    -- The marks of the other words stay behind this one and its blank.
    have hframe (k : Nat) (hk : k < i + m.1.size + 1) :
        (markWords profile buf roles₁ (d.places (i + m.1.size + 1) ms)).get k = roles₁.get k := by
      refine (sameOutside_markWords profile hb (isEnd_size buf).within fun w hw => ?_).get_eq k
        (.inl hk)
      have hw : w ∈ (Word.read profile buf (isDefault buf) buf.size (i + m.1.size + 1)).1 := by
        rwa [read_places hb hs hc hh hrest]
      exact Word.within_of_mem_read hw
    generalize markWords profile buf roles₁ _ = roles₂ at hi hframe ⊢
    subst hr₁
    rw [modifiersMarked, List.append_assoc, List.cons_append]
    exact .word hm hblank hr (hn _ (Nat.le_add_right ..) hlt) hframe hi

theorem ends_ofChars (d : PointerDeclaration) : d.Ends (.ofChars d.print) 0 d.modifiers where
  holds := (Buffer.holds_ofChars d.scan_print).1
  size_eq := (Buffer.holds_ofChars d.scan_print).2.trans (Nat.zero_add _).symm

theorem not_isChar_print (d : PointerDeclaration) {c : Char} (k : Nat)
    (hc : c.isAlphanum = false ∧ c ∉ "_ \t*&^".toList) :
    (Buffer.ofChars d.print).isChar k c = false := by
  rw [Bool.eq_false_iff]
  intro h
  rcases d.mem_print (Buffer.mem_of_isChar h) with h | h
  case inl => simp [hc.1] at h
  case inr => exact hc.2 h

-- Blanks around the pointer symbols do not change what a declaration means, as long as there are
-- some and no comment starts with them.
theorem tokens_ofText (profile : Profile) (d : PointerDeclaration) (hs : d.Spaced)
    (hc : Skip.PlainBlanks profile (.ofChars d.print)) :
    (ofText profile d.print).tokens = d.marked := by
  have hb := Buffer.wellFormed_ofChars d.print
  have hends := d.ends_ofChars
  have hlist : delimit? profile (.ofChars d.print) = none := by
    have hnone : listOpening? profile (.ofChars d.print) 0 = none :=
      listOpening?_eq_none (fun k c hc => d.not_isChar_print k (by revert c; decide)) 0
    simp [delimit?, hnone]
  have hcolon (k : Nat) := d.not_isChar_print k (c := ':') (by decide)
  have hstyle : styleOf profile (.ofChars d.print) 0 (Buffer.ofChars d.print).size = .c := by
    have hnone : hasColon profile (.ofChars d.print) (Buffer.ofChars d.print).size 0 = false :=
      hasColon_eq_false hb fun k _ _ => hcolon k
    simp [styleOf, hnone]
  have hdefault (k : Nat) : isDefault (.ofChars d.print) k = false := by
    simp [isDefault, Buffer.matchesAt_assign hb, hcolon, d.not_isChar_print k (c := '=') (by decide)]
  have hroles : (ofText profile d.print).roles =
      markWords profile (.ofChars d.print) (.empty (.ofChars d.print)) (d.places 0 d.modifiers) := by
    simp [ofText, hlist, hstyle, mark, markC, read_places hb hs hc hdefault hends]
  have hbuffer : (ofText profile d.print).buffer = .ofChars d.print := by
    simp [ofText, hlist]
  have hshows : Shows (ofText profile d.print).buffer (ofText profile d.print).roles 0 d.marked := by
    rw [hroles, hbuffer]
    exact markWords_shows hb hs hc hdefault hends (by simp [Roles.empty]) fun k _ _ =>
      Roles.get_empty ..
  have hlen : d.marked.length = (Buffer.ofChars d.print).size := by
    have h := hends.size_eq
    rw [length_marked, h, Nat.zero_add]
    rfl
  rw [Prototype.tokens, hbuffer, ← hlen, ← Nat.zero_add d.marked.length]
  exact hshows.marked_eq

-- `static wchar\t* *argv`
def argv : PointerDeclaration where
  modifiers := [(⟨"static".toList, by decide, by decide, by decide⟩, .single)]
  type := ⟨"wchar".toList, by decide, by decide, by decide⟩
  pointers := [(⟨['\t'], by decide⟩, ⟨'*', .inl rfl⟩), (.spaces 1, ⟨'*', .inl rfl⟩)]
  pointers_ne_nil := List.cons_ne_nil _ _
  after := .spaces 0
  name := ⟨"argv".toList, by decide, by decide, by decide⟩

theorem tokens_ofText_argv :
    argv.Spaced ∧ Skip.PlainBlanks .builtinC (.ofChars argv.print) ∧
      (ofText .builtinC "static wchar\t* *argv".toList).tokens = [
        (⟨.text, "static".toList⟩, some .modifier), (⟨.blank, [' ']⟩, none),
        (⟨.text, "wchar".toList⟩, some .type), (⟨.blank, ['\t']⟩, none),
        (⟨.symbol, ['*']⟩, some .namePrefix), (⟨.blank, [' ']⟩, none),
        (⟨.symbol, ['*']⟩, some .namePrefix), (⟨.text, "argv".toList⟩, some .name)] := by
  have hs : argv.Spaced := .inl ⟨_, .head _, by decide⟩
  have hc : Skip.Uncommented .builtinC (.ofChars argv.print) :=
    .of_not_mem (by decide) (by decide)
  have hprint : argv.print = "static wchar\t* *argv".toList := by decide
  have hp := hc.plainBlanks
  refine ⟨hs, hp, ?_⟩
  rw [← hprint, tokens_ofText .builtinC argv hs hp]
  decide +kernel

-- `long*p`
def glued : PointerDeclaration where
  modifiers := []
  type := ⟨"long".toList, by decide, by decide, by decide⟩
  pointers := [(.spaces 0, ⟨'*', .inl rfl⟩)]
  pointers_ne_nil := List.cons_ne_nil _ _
  after := .spaces 0
  name := ⟨"p".toList, by decide, by decide, by decide⟩

-- `long* p`
def spaced : PointerDeclaration :=
  { glued with after := .spaces 1 }

-- A language whose comments start with a blank.
def blankComments : Profile :=
  { Profile.plain with lineComments := [" "] }

-- The blank and the name are one word there, and the blank stands before the name in it.
theorem get_spaced_blankComments :
    (ofText blankComments spaced.print).roles.get 2 = some .namePrefix := by
  have hb := Buffer.wellFormed_ofChars spaced.print
  have hlist : delimit? blankComments (.ofChars spaced.print) = none := by decide +kernel
  have hstyle : styleOf blankComments (.ofChars spaced.print) 0 4 = .c := by decide +kernel
  have hread : Word.read blankComments (.ofChars spaced.print)
      (isDefault (.ofChars spaced.print)) 4 0 = ([⟨0, 2, false⟩, ⟨2, 4, true⟩], 4) := by
    decide +kernel
  have hseek : Buffer.seek (isIdentifier (.ofChars spaced.print)) 2 4 = 3 := by decide +kernel
  have hname : qualifiedEnd (.ofChars spaced.print) 4 3 = 4 := by decide +kernel
  have htype : Roles.SameOutside blankComments (.ofChars spaced.print) 0 2
      (.empty (.ofChars spaced.print))
      (markDeclaredType blankComments (.ofChars spaced.print) (.empty (.ofChars spaced.print))
        ⟨0, 2, false⟩) :=
    sameOutside_markDeclaredType blankComments hb (w := ⟨0, 2, false⟩) (by decide)
      (.inr ⟨rfl, by decide +kernel⟩)
  have hsize : (Buffer.ofChars spaced.print).size = 4 := by decide +kernel
  have hroles : (ofText blankComments spaced.print).roles =
      markName blankComments (.ofChars spaced.print)
        (markDeclaredType blankComments (.ofChars spaced.print) (.empty (.ofChars spaced.print))
          ⟨0, 2, false⟩) ⟨2, 4, true⟩ := by
    simp [ofText, hlist, hsize, hstyle, mark, markC, hread, markWords]
  rw [hroles]
  generalize markDeclaredType blankComments _ _ _ = roles at htype ⊢
  have hr : roles.slots.size = 4 := by rw [htype.size_eq]; decide +kernel
  simp [markName, hseek, hname, markNameSuffix, Roles.get_setRange, hr]

-- Without any blank the name is taken for a part of the word before it, and a blank that starts a
-- comment has a role.
theorem pointer_not_marked :
    (ofText .builtinC glued.print).tokens ≠ glued.marked ∧
      spaced.Spaced ∧ (ofText blankComments spaced.print).tokens ≠ spaced.marked := by
  refine ⟨by decide +kernel, .inr (by decide), fun h => ?_⟩
  have hbuffer : (ofText blankComments spaced.print).buffer = .ofChars spaced.print := by
    have hlist : delimit? blankComments (.ofChars spaced.print) = none := by decide +kernel
    simp [ofText, hlist]
  have hblank : (ofText blankComments spaced.print).tokens[2]? =
      some (⟨.blank, [' ']⟩, some .namePrefix) := by
    have htoken : (Buffer.ofChars spaced.print).tokens[2]? = some ⟨.blank, [' ']⟩ := by
      decide +kernel
    have hsize : (Buffer.ofChars spaced.print).size = 4 := by decide +kernel
    simp [Prototype.tokens, getElem?_marked, hbuffer, hsize, htoken, get_spaced_blankComments]
  rw [h] at hblank
  exact absurd hblank (by decide +kernel)

end PointerDeclaration
end SourceDocs

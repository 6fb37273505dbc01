import SourceDocs.Proofs.ParameterList
import SourceDocs.Proofs.Signature.Text

namespace SourceDocs

open Prototype

def Token.listSymbols : List Char :=
  "\"\x27".toList ++ "()[]\x7b\x7d<>,;".toList

-- A token that neither opens, nor divides, nor closes a list or a string.
def Token.IsInert (t : Token) : Prop :=
  t.kind = .symbol → ∀ c ∈ t.chars.head?, c ∉ Token.listSymbols

theorem Token.IsPlain.inert {t : Token} (h : t.IsPlain) : t.IsInert := by
  rcases h with h | rfl
  · intro hs
    simp [h] at hs
  · rintro - c ⟨rfl⟩
    decide

theorem Token.inert_of_blank {t : Token} (h : t.kind = .blank) : t.IsInert := by
  intro hs
  simp [h] at hs

theorem Gap.inert {g : Gap} {t : Token} (ht : t ∈ g.tokens) : t.IsInert :=
  Token.inert_of_blank (kind_of_mem ht)

section Inert

variable {profile : Profile} {buf : Buffer} {i : Nat} {t : Token} {ts : List Token}

theorem symbol?_inert (hi : buf.tokens[i]? = some t) (ht : t.IsInert) {c : Char}
    (hc : buf.symbol? i = some c) : c ∉ Token.listSymbols := by
  have ⟨u, hu, hk, hh⟩ := Buffer.isChar_iff.mp (show buf.isChar i c = true by simp [Buffer.isChar, hc])
  obtain rfl := Option.some.inj (hi.symm.trans hu)
  exact ht hk c hh

theorem not_isChar_inert (hi : buf.tokens[i]? = some t) (ht : t.IsInert) {c : Char}
    (hc : c ∈ Token.listSymbols) : buf.isChar i c = false := by
  rw [Bool.eq_false_iff]
  intro h
  simp only [Buffer.isChar, decide_eq_true_eq] at h
  exact symbol?_inert hi ht h hc

theorem closing?_inert {c : Char} (hc : c ∉ Token.listSymbols) :
    Text.closing? c = none := by
  unfold Text.closing?
  split
  case h_5 => rfl
  all_goals exact absurd (by decide) hc

-- The search for the opening bracket passes over inert tokens one by one: none is a bracket, and
-- none starts a string. A comment could start anywhere, hence the assumption.
theorem listOpening?_inert (hc : Skip.Uncommented profile buf) (h : buf.Holds i ts)
    (ht : ∀ t ∈ ts, t.IsInert) :
    listOpening? profile buf i = listOpening? profile buf (i + ts.length) := by
  induction ts generalizing i
  case nil => rfl
  case cons t ts hi =>
    have hq : Skip.quoted? profile buf i = none := hc.quoted?_eq_none fun c hs => by
      have := symbol?_inert h.1 (ht t (.head _)) hs
      constructor <;> rintro rfl <;> exact this (by decide)
    have hchar {c : Char} := not_isChar_inert (c := c) h.1 (ht t (.head _))
    rw [listOpening?, if_pos (Buffer.lt_size_of_token h.1)]
    split
    case h_1 hj => cases hq.symm.trans hj
    case h_2 =>
      simp only [hchar (c := '(') (by decide), hchar (c := '[') (by decide),
        hchar (c := '\x7b') (by decide), Bool.false_eq_true, ↓reduceIte, Bool.false_and]
      rw [hi h.2 fun u hu => ht u (.tail _ hu), List.length_cons]
      congr 1
      omega

theorem listOpening?_bracket (hc : Skip.Uncommented profile buf) (h : buf.Holds i ts)
    (ht : ∀ t ∈ ts, t.IsInert) (hopen : buf.tokens[i + ts.length]? = some ⟨.symbol, ['(']⟩) :
    listOpening? profile buf i = some (i + ts.length, ')') := by
  have hchar : buf.isChar (i + ts.length) '(' = true := Buffer.isChar_iff.mpr ⟨_, hopen, rfl, rfl⟩
  have hq : Skip.quoted? profile buf (i + ts.length) = none := hc.quoted?_eq_none fun c hs => by
    simp only [Buffer.isChar, decide_eq_true_eq] at hchar
    obtain rfl := Option.some.inj (hchar.symm.trans hs)
    decide
  rw [listOpening?_inert hc h ht, listOpening?, if_pos (Buffer.lt_size_of_token hopen)]
  split
  case h_1 hj => cases hq.symm.trans hj
  case h_2 => rw [if_pos hchar]

theorem listSeparators_inert (hc : Skip.Uncommented profile buf) (h : buf.Holds i ts)
    (ht : ∀ t ∈ ts, t.IsInert) :
    listSeparators profile buf ')' i = listSeparators profile buf ')' (i + ts.length) := by
  induction ts generalizing i
  case nil => rfl
  case cons t ts hi =>
    have he : Skip.enclosed? profile buf true i = none :=
      hc.enclosed?_eq_none_of_symbol fun c hs => by
        have := symbol?_inert h.1 (ht t (.head _)) hs
        exact ⟨fun hq => this (List.mem_append_left _ hq), closing?_inert this⟩
    have hchar {c : Char} := not_isChar_inert (c := c) h.1 (ht t (.head _))
    have hs : isListSeparator buf i = false := by
      simp only [isListSeparator, hchar (c := ',') (by decide), hchar (c := ';') (by decide),
        Bool.or_self]
    rw [listSeparators_other (Buffer.lt_size_of_token h.1) hs (hchar (by decide)) he,
      hi h.2 fun u hu => ht u (.tail _ hu), List.length_cons]
    congr 1
    omega

theorem isChar_paren (h : buf.tokens[i]? = some ⟨.symbol, [')']⟩) : buf.isChar i ')' = true :=
  Buffer.isChar_iff.mpr ⟨_, h, rfl, rfl⟩

theorem listSeparators_paren (h : buf.tokens[i]? = some ⟨.symbol, [')']⟩) :
    listSeparators profile buf ')' i = ([], some i) := by
  have hchar := isChar_paren h
  have hs : isListSeparator buf i = false := by
    simp only [Buffer.isChar, decide_eq_true_eq] at hchar
    simp [isListSeparator, Buffer.isChar, hchar]
  exact listSeparators_closer (Buffer.lt_size_of_token h) hs hchar

end Inert

inductive Separator
  | comma
  | semicolon
deriving DecidableEq

namespace Separator

def char : Separator → Char
  | comma => ','
  | semicolon => ';'

def token (s : Separator) : Token :=
  ⟨.symbol, [s.char]⟩

theorem ofChar_char (s : Separator) : Token.Kind.ofChar s.char = .symbol := by
  cases s <;> decide

theorem isChar {buf : Buffer} {i : Nat} {s : Separator} (h : buf.tokens[i]? = some s.token) :
    buf.isChar i s.char = true :=
  Buffer.isChar_iff.mpr ⟨_, h, rfl, rfl⟩

theorem isListSeparator {buf : Buffer} {i : Nat} {s : Separator}
    (h : buf.tokens[i]? = some s.token) : isListSeparator buf i = true := by
  have hc := isChar h
  cases s <;> simp_all [Prototype.isListSeparator, char]

end Separator

-- A part of a list: tokens with the roles that they are to have, and the blanks around them.
structure Piece where
  before : Gap
  core : List Marked
  after : Gap
  inert : ∀ m ∈ core, m.1.IsInert
  first : ∃ t ∈ (core.map Prod.fst).head?, t.kind ≠ .blank
  last : ∃ t ∈ (core.map Prod.fst).getLast?, t.kind ≠ .blank

namespace Piece

variable (p : Piece)

def tokens : List Token :=
  p.before.tokens ++ (p.core.map Prod.fst ++ p.after.tokens)

def size : Nat :=
  p.tokens.length

def span (i : Nat) : Nat × Nat :=
  (i + p.before.size, i + p.before.size + p.core.length)

theorem size_eq : p.size = p.before.size + p.core.length + p.after.size := by
  simp only [size, tokens, List.length_append, List.length_map, Gap.size]
  omega

theorem inert_of_mem {t : Token} (ht : t ∈ p.tokens) : t.IsInert := by
  simp only [tokens, List.mem_append, List.mem_map] at ht
  rcases ht with ht | ⟨m, hm, rfl⟩ | ht
  · exact Gap.inert ht
  · exact p.inert m hm
  · exact Gap.inert ht

def listTokens : Piece → List (Separator × Piece) → List Token
  | p, [] => p.tokens ++ [⟨.symbol, [')']⟩]
  | p, (s, q) :: qs => p.tokens ++ s.token :: listTokens q qs

def separators (i : Nat) : Piece → List (Separator × Piece) → List Nat
  | _, [] => []
  | p, (_, q) :: qs => (i + p.size) :: separators (i + p.size + 1) q qs

def spans (i : Nat) : Piece → List (Separator × Piece) → List (Nat × Nat)
  | p, [] => [p.span i]
  | p, (_, q) :: qs => p.span i :: spans (i + p.size + 1) q qs

def closer (i : Nat) : Piece → List (Separator × Piece) → Nat
  | p, [] => i + p.size
  | p, (_, q) :: qs => closer (i + p.size + 1) q qs

variable {p : Piece} {qs : List (Separator × Piece)} {profile : Profile} {buf : Buffer}
  {roles : Roles} {i k n : Nat}

theorem length_spans (i : Nat) (p : Piece) (qs : List (Separator × Piece)) :
    (spans i p qs).length = qs.length + 1 := by
  induction qs generalizing i p
  case nil => rfl
  case cons q qs hi => simp [spans, hi]

theorem closer_add_one (i : Nat) (p : Piece) (qs : List (Separator × Piece)) :
    closer i p qs + 1 = i + (listTokens p qs).length := by
  induction qs generalizing i p
  case nil =>
    simp only [closer, listTokens, List.length_append, List.length_singleton, size]
    omega
  case cons q qs hi =>
    simp only [closer, listTokens, List.length_append, List.length_cons, hi, size]
    omega

theorem le_closer (i : Nat) (p : Piece) (qs : List (Separator × Piece)) : i ≤ closer i p qs := by
  induction qs generalizing i p
  case nil => exact Nat.le_add_right ..
  case cons q qs hi =>
    have := hi (i + p.size + 1) q.2
    simp only [closer]
    omega

theorem holds_one (h : buf.Holds i (listTokens p [])) :
    buf.Holds i p.tokens ∧ buf.tokens[i + p.size]? = some ⟨.symbol, [')']⟩ :=
  (Buffer.holds_append.mp h).imp_right And.left

theorem holds_more {q : Separator × Piece} (h : buf.Holds i (listTokens p (q :: qs))) :
    buf.Holds i p.tokens ∧ buf.tokens[i + p.size]? = some q.1.token ∧
      buf.Holds (i + p.size + 1) (listTokens q.2 qs) :=
  Buffer.holds_append.mp h

theorem closer_token (h : buf.Holds i (listTokens p qs)) :
    buf.tokens[closer i p qs]? = some ⟨.symbol, [')']⟩ := by
  induction qs generalizing i p
  case nil => exact (holds_one h).2
  case cons q qs hi => exact hi (holds_more h).2.2

theorem separators_token (h : buf.Holds i (listTokens p qs)) (hk : k ∈ separators i p qs) :
    ∃ s : Separator, buf.tokens[k]? = some s.token := by
  induction qs generalizing i p
  case nil => simp [separators] at hk
  case cons q qs hi =>
    obtain ⟨_, hs, hrest⟩ := holds_more h
    rcases List.mem_cons.mp hk with rfl | hk
    · exact ⟨q.1, hs⟩
    · exact hi hrest hk

theorem bounds_of_mem_separators (hk : k ∈ separators i p qs) : i ≤ k ∧ k < closer i p qs := by
  induction qs generalizing i p
  case nil => simp [separators] at hk
  case cons q qs hi =>
    have hle := le_closer (i + p.size + 1) q.2 qs
    simp only [closer]
    rcases List.mem_cons.mp hk with rfl | hk
    · omega
    · have := hi hk
      omega

-- The pieces are passed over up to the separator or the bracket behind them.
theorem listSeparators_list (hc : Skip.Uncommented profile buf)
    (h : buf.Holds i (listTokens p qs)) :
    listSeparators profile buf ')' i = (separators i p qs, some (closer i p qs)) := by
  induction qs generalizing i p
  case nil =>
    obtain ⟨hp, hend⟩ := holds_one h
    rw [listSeparators_inert hc hp fun t ht => p.inert_of_mem ht]
    exact listSeparators_paren hend
  case cons q qs hi =>
    obtain ⟨hp, hs, hrest⟩ := holds_more h
    rw [listSeparators_inert hc hp fun t ht => p.inert_of_mem ht]
    refine (listSeparators_separator (Buffer.lt_size_of_token hs)
      (Separator.isListSeparator hs)).trans ?_
    rw [hi hrest]
    rfl

theorem holds_core (h : buf.Holds i p.tokens) :
    buf.Holds (p.span i).1 (p.core.map Prod.fst) ∧ buf.Holds (p.span i).2 p.after.tokens := by
  have h := Buffer.holds_append.mp (Buffer.holds_append.mp h).2
  rw [List.length_map] at h
  exact h

theorem lt_span (p : Piece) (i : Nat) : (p.span i).1 < (p.span i).2 := by
  obtain ⟨t, ht, -⟩ := p.first
  have hpos := List.length_pos_of_mem (List.mem_of_mem_head? ht)
  rw [List.length_map] at hpos
  exact Nat.lt_add_of_pos_right hpos

theorem not_isBlank_first (h : buf.Holds i p.tokens) : buf.isBlank (p.span i).1 = false := by
  obtain ⟨t, ht, hk⟩ := p.first
  exact Buffer.isBlank_eq_false ((holds_core h).1.first ht) hk

theorem not_isBlank_last (h : buf.Holds i p.tokens) :
    buf.isBlank ((p.span i).2 - 1) = false := by
  obtain ⟨t, ht, hk⟩ := p.last
  have hlast := (holds_core h).1.last ht
  rw [List.length_map] at hlast
  exact Buffer.isBlank_eq_false hlast hk

-- The blanks around a piece are cut off, and no more, since neither of its ends is blank.
theorem trimmed_eq (h : buf.Holds i p.tokens) :
    Delimited.trimmed buf i (i + p.size) = p.span i := by
  have ha := (holds_core h).2
  have hsize := p.size_eq
  have hfirst : buf.afterBlanks i (i + p.size) = (p.span i).1 :=
    Gap.afterBlanks_eq (Buffer.holds_append.mp h).1 (by omega) (.inr (not_isBlank_first h))
  have hstop : i + p.size = (p.span i).2 + p.after.size := by
    simp only [span]
    omega
  unfold Delimited.trimmed
  simp only [hfirst]
  rw [hstop, Gap.beforeBlanks_eq ha (p.lt_span i) (not_isBlank_last h)]

theorem ranges_list (h : buf.Holds i (listTokens p qs)) :
    Delimited.ranges buf i (closer i p qs) (separators i p qs) = spans i p qs := by
  induction qs generalizing i p
  case nil =>
    simp [closer, separators, spans, Delimited.ranges, trimmed_eq (holds_one h).1]
  case cons q qs hi =>
    obtain ⟨hp, _, hrest⟩ := holds_more h
    simp only [closer, separators, spans, Delimited.ranges, trimmed_eq hp, hi hrest]

-- A piece ends before a blank or before what follows it in the list.
theorem isEnd_span {c : Char} (h : buf.Holds i p.tokens) (hc : buf.isChar (i + p.size) c = true)
    (hmem : c ∉ [':', '=']) : IsEnd buf (p.span i).2 := by
  have hsize := p.size_eq
  have ha := (holds_core h).2
  by_cases hg : p.after.size = 0
  case pos =>
    have hs : (p.span i).2 = i + p.size := by
      simp only [span]
      omega
    exact hs ▸ isEnd_of_isChar hc hmem
  case neg => exact isEnd_of_isBlank (Gap.isBlank_of_holds ha hg).2

theorem bounds_of_mem_spans (h : buf.Holds i (listTokens p qs)) {r : Nat × Nat}
    (hr : r ∈ spans i p qs) : i ≤ r.1 ∧ r.2 ≤ closer i p qs ∧ IsEnd buf r.2 := by
  induction qs generalizing i p
  case nil =>
    have ⟨hp, hend⟩ := holds_one h
    have hsize := p.size_eq
    obtain rfl := List.mem_singleton.mp hr
    refine ⟨Nat.le_add_right .., ?_, isEnd_span hp (isChar_paren hend) (by decide)⟩
    simp only [span, closer]
    omega
  case cons q qs hi =>
    have ⟨hp, hs, hrest⟩ := holds_more h
    have hsize := p.size_eq
    rcases List.mem_cons.mp hr with rfl | hr
    case inl =>
      have := le_closer (i + p.size + 1) q.2 qs
      have hmem : q.1.char ∉ [':', '='] := by cases q.1 <;> decide
      refine ⟨Nat.le_add_right .., ?_, isEnd_span hp (Separator.isChar hs) hmem⟩
      simp only [span, closer]
      omega
    case inr =>
      have ⟨h₁, h₂, h₃⟩ := hi hrest hr
      exact ⟨by omega, h₂, h₃⟩

-- What stands in one of the spans is a token of one of the pieces.
theorem token_of_mem_spans (h : buf.Holds i (listTokens p qs)) {r : Nat × Nat}
    (hr : r ∈ spans i p qs) (hk : r.1 ≤ k) (hl : k < r.2) :
    ∃ q ∈ p :: qs.map Prod.snd, ∃ m ∈ q.core, buf.tokens[k]? = some m.1 := by
  have hone {p : Piece} {i : Nat} (hp : buf.Holds i p.tokens) (hk : (p.span i).1 ≤ k)
      (hl : k < (p.span i).2) : ∃ m ∈ p.core, buf.tokens[k]? = some m.1 := by
    obtain ⟨t, ht, hi⟩ := (holds_core hp).1.token hk (by rwa [List.length_map])
    obtain ⟨m, hm, rfl⟩ := List.mem_map.mp ht
    exact ⟨m, hm, hi⟩
  induction qs generalizing i p
  case nil =>
    obtain rfl := List.mem_singleton.mp hr
    exact ⟨p, .head _, hone (holds_one h).1 hk hl⟩
  case cons q qs hi =>
    obtain ⟨hp, _, hrest⟩ := holds_more h
    rcases List.mem_cons.mp hr with rfl | hr
    case inl => exact ⟨p, .head _, hone hp hk hl⟩
    case inr =>
      obtain ⟨r, hr, hm⟩ := hi hrest hr
      exact ⟨r, .tail _ hr, hm⟩

theorem sameOutside_spans (hb : buf.WellFormed) (h : buf.Holds i (listTokens p qs)) (style : Style)
    (roles : Roles) :
    Roles.SameOutside profile buf i (closer i p qs) roles
      ((spans i p qs).foldl (fun r s => mark profile buf style r s.1 s.2) roles) := by
  refine .foldl (fun r s hs => ?_) roles
  have ⟨h₁, h₂, h₃⟩ := bounds_of_mem_spans h hs
  exact (sameOutside_mark profile hb h₃ style).mono h₁ h₂

-- Marked in this style, the piece shows its roles wherever it stands.
def ShowsIn (profile : Profile) (buf : Buffer) (style : Style) (p : Piece) : Prop :=
  ∀ (roles : Roles) (i : Nat), roles.slots.size = buf.size →
    buf.Holds (p.span i).1 (p.core.map Prod.fst) → IsEnd buf (p.span i).2 →
    (∀ k, (p.span i).1 ≤ k → k < (p.span i).2 → roles.get k = none) →
    Shows buf (mark profile buf style roles (p.span i).1 (p.span i).2) (p.span i).1 p.core

-- Each piece is marked on its own tokens, which no other one touches. The induction goes along the
-- list with the roles that the pieces so far have left; it carries that there are no roles yet in
-- the spans that are still to come.
theorem shows_spans (hb : buf.WellFormed) {style : Style}
    (hshows : ∀ q ∈ p :: qs.map Prod.snd, q.ShowsIn profile buf style)
    (hr : roles.slots.size = buf.size) (h : buf.Holds i (listTokens p qs))
    (hn : ∀ s ∈ spans i p qs, ∀ k, s.1 ≤ k → k < s.2 → roles.get k = none) {q : Piece}
    (hq : (p :: qs.map Prod.snd)[n]? = some q) :
    ∃ s, (spans i p qs)[n]? = some s ∧ s.2 = s.1 + q.core.length ∧
      Shows buf ((spans i p qs).foldl (fun r s => mark profile buf style r s.1 s.2) roles)
        s.1 q.core := by
  induction qs generalizing i p roles n
  case nil =>
    have ⟨hp, _⟩ := holds_one h
    cases n
    case succ => simp at hq
    case zero =>
      obtain rfl := Option.some.inj hq
      refine ⟨p.span i, rfl, rfl, ?_⟩
      exact hshows p (by simp) roles i hr (holds_core hp).1
        (bounds_of_mem_spans h (by simp [spans])).2.2 (hn (p.span i) (by simp [spans]))
  case cons r qs hi =>
    have ⟨hp, _, hrest⟩ := holds_more h
    have hend := (bounds_of_mem_spans h (show p.span i ∈ _ by simp [spans])).2.2
    have hfirst := hshows p (by simp) roles i hr (holds_core hp).1 hend
      (hn (p.span i) (by simp [spans]))
    have hframe : Roles.SameOutside profile buf (p.span i).1 (p.span i).2 roles
        (mark profile buf style roles _ _) := sameOutside_mark profile hb hend style
    have hsize := p.size_eq
    have hlt : (p.span i).2 ≤ i + p.size := by
      simp only [span]
      omega
    rw [spans, List.foldl_cons]
    cases n
    -- The first piece keeps what it shows, since all others lie behind it.
    case zero =>
      obtain rfl := Option.some.inj hq
      refine ⟨p.span i, rfl, rfl, hfirst.congr fun k _ hk => ?_⟩
      change k < (p.span i).2 at hk
      exact (sameOutside_spans hb hrest style _).get_eq k (.inl (by omega))
    -- Marking the first piece leaves the spans behind it empty.
    case succ n =>
      refine hi (fun q hq => hshows q (.tail _ hq)) (hframe.size_eq.trans hr) hrest
        (fun s hs k hk hl => ?_) hq
      have := (bounds_of_mem_spans hrest hs).1
      rw [hframe.get_eq k (.inr (by omega))]
      exact hn s (.tail _ hs) k hk hl

-- The list stands behind the bracket at `o`, with inert tokens before it.
structure Encloses (buf : Buffer) (o : Nat) (p : Piece) (qs : List (Separator × Piece)) : Prop where
  before : ∃ ts, buf.Holds 0 ts ∧ ts.length = o ∧ ∀ t ∈ ts, t.IsInert
  opener : buf.tokens[o]? = some ⟨.symbol, ['(']⟩
  body : buf.Holds (o + 1) (listTokens p qs)

def delimited (o : Nat) (p : Piece) (qs : List (Separator × Piece)) : Delimited :=
  ⟨o, separators (o + 1) p qs, some (closer (o + 1) p qs)⟩

namespace Encloses

variable {o : Nat}

theorem delimit?_eq (h : Encloses buf o p qs) (hc : Skip.Uncommented profile buf) :
    delimit? profile buf = some (delimited o p qs) := by
  obtain ⟨ts, hts, rfl, hinert⟩ := h.before
  have hopen := listOpening?_bracket hc hts hinert (by simpa using h.opener)
  simp only [delimit?, bind, Option.bind, hopen, Nat.zero_add, listSeparators_list hc h.body, pure,
    delimited]

theorem parameters_eq (h : Encloses buf o p qs) :
    (delimited o p qs).parameters buf = spans (o + 1) p qs := by
  unfold Delimited.parameters
  simp only [delimited, Delimited.stop, Option.getD_some, ranges_list h.body]
  cases qs
  case nil => exact if_neg (Nat.ne_of_lt (p.lt_span (o + 1)))
  case cons q qs => cases qs <;> rfl

-- The brackets and the separators are not inert.
theorem get_mark_inert (h : Encloses buf o p qs) {t : Token} (hk : buf.tokens[k]? = some t)
    (ht : t.IsInert) : ((delimited o p qs).mark buf).get k = none := by
  have hother {j : Nat} {c : Char} (hj : buf.tokens[j]? = some ⟨.symbol, [c]⟩)
      (hc : c ∈ Token.listSymbols) : k ≠ j := by
    rintro rfl
    obtain rfl := Option.some.inj (hk.symm.trans hj)
    exact ht rfl c rfl hc
  refine Delimited.get_mark (hother h.opener (by decide)) (fun hs => ?separator) fun hs => ?closer
  case separator =>
    obtain ⟨s, hs⟩ := separators_token h.body hs
    exact hother hs (by cases s <;> decide) rfl
  case closer =>
    obtain rfl := Option.some.inj hs
    exact hother (closer_token h.body) (by decide) rfl

def listRoles (profile : Profile) (buf : Buffer) (style : Style) (o : Nat) (p : Piece)
    (qs : List (Separator × Piece)) : Roles :=
  (spans (o + 1) p qs).foldl (fun r s => mark profile buf style r s.1 s.2)
    ((delimited o p qs).mark buf)

variable {style : Style}

theorem sameOutside_listRoles (h : Encloses buf o p qs) (hb : buf.WellFormed) :
    Roles.SameOutside profile buf (o + 1) (closer (o + 1) p qs) ((delimited o p qs).mark buf)
      (listRoles profile buf style o p qs) :=
  sameOutside_spans hb h.body style _

theorem size_listRoles (h : Encloses buf o p qs) (hb : buf.WellFormed) :
    (listRoles profile buf style o p qs).slots.size = buf.size :=
  (h.sameOutside_listRoles hb).size_eq.trans (Delimited.size_mark _)

-- Outside of its brackets a list is not marked.
theorem get_listRoles (h : Encloses buf o p qs) (hb : buf.WellFormed)
    (hk : k < o ∨ closer (o + 1) p qs < k) :
    (listRoles profile buf style o p qs).get k = none := by
  have hle := le_closer (o + 1) p qs
  have hmark : ((delimited o p qs).mark buf).get k = none := by
    refine Delimited.get_mark ?opener (fun hs => ?separator) fun hs => ?closer
    case opener =>
      simp only [delimited]
      omega
    case separator =>
      have := bounds_of_mem_separators hs
      omega
    case closer =>
      have := Option.some.inj hs
      omega
  rw [(h.sameOutside_listRoles hb).get_eq k (by omega), hmark]

theorem shows_listRoles (h : Encloses buf o p qs) (hb : buf.WellFormed)
    (hshows : ∀ q ∈ p :: qs.map Prod.snd, q.ShowsIn profile buf style) {q : Piece}
    (hq : (p :: qs.map Prod.snd)[n]? = some q) :
    ∃ s, (spans (o + 1) p qs)[n]? = some s ∧ s.2 = s.1 + q.core.length ∧ o < s.1 ∧
      s.2 ≤ closer (o + 1) p qs ∧
      Shows buf (listRoles profile buf style o p qs) s.1 q.core := by
  have ⟨s, hs, hstop, hshow⟩ := shows_spans hb hshows (Delimited.size_mark (delimited o p qs)) h.body
    (fun r hr k hk hl => by
      obtain ⟨q, _, m, hm, ht⟩ := token_of_mem_spans h.body hr hk hl
      exact h.get_mark_inert ht (q.inert m hm)) hq
  have hbounds := bounds_of_mem_spans h.body (List.mem_of_getElem? hs)
  exact ⟨s, hs, hstop, hbounds.1, hbounds.2.1, hshow⟩

end Encloses

end Piece
end SourceDocs

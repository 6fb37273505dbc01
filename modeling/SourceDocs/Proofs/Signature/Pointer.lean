import SourceDocs.Proofs.Signature.RoundTrip

namespace SourceDocs

open Prototype

structure PointerSymbol where
  char : Char
  isPointer : char = '*' ∨ char = '&' ∨ char = '^'

-- Modifiers, a type, pointer symbols with the blanks before each of them, and a name.
structure PointerDeclaration where
  modifiers : List (Ident × Space)
  type : Ident
  pointers : List (Gap × PointerSymbol)
  pointers_ne_nil : pointers ≠ []
  after : Gap
  name : Ident

namespace PointerSymbol

def token (p : PointerSymbol) : Token :=
  ⟨.symbol, [p.char]⟩

def print (ps : List (Gap × PointerSymbol)) : List Char :=
  ps.flatMap fun p => p.1.chars ++ [p.2.char]

def tokens (ps : List (Gap × PointerSymbol)) : List Token :=
  ps.flatMap fun p => p.1.tokens ++ [p.2.token]

@[simp]
theorem tokens_nil : tokens [] = [] :=
  rfl

theorem tokens_cons (p : Gap × PointerSymbol) (ps : List (Gap × PointerSymbol)) :
    tokens (p :: ps) = p.1.tokens ++ p.2.token :: tokens ps := by
  simp [tokens]

@[simp]
theorem length_tokens_cons (p : Gap × PointerSymbol) (ps : List (Gap × PointerSymbol)) :
    (tokens (p :: ps)).length = p.1.size + 1 + (tokens ps).length := by
  rw [tokens_cons, List.length_append, List.length_cons, Gap.size]
  omega

theorem kind_char (p : PointerSymbol) : Token.Kind.ofChar p.char = .symbol := by
  obtain ⟨c, rfl | rfl | rfl⟩ := p <;> decide

theorem scan_print_append (ps : List (Gap × PointerSymbol)) (rest : List Char) :
    Token.scan (print ps ++ rest) = tokens ps ++ Token.scan rest := by
  induction ps
  case nil => rfl
  case cons p ps hi =>
    have hhead : ∀ c ∈ (p.2.char :: (print ps ++ rest)).head?, Token.Kind.ofChar c ≠ .blank := by
      rintro c ⟨rfl⟩
      simp [p.2.kind_char]
    calc Token.scan (print (p :: ps) ++ rest)
      _ = Token.scan (p.1.chars ++ p.2.char :: (print ps ++ rest)) := by simp [print]
      _ = p.1.tokens ++ p.2.token :: (tokens ps ++ Token.scan rest) := by
        rw [p.1.scan_append hhead, Token.scan_symbol p.2.kind_char, hi]
        rfl
      _ = tokens (p :: ps) ++ Token.scan rest := by simp [tokens]

theorem head_print {ps : List (Gap × PointerSymbol)} (hps : ps ≠ []) (rest : List Char) :
    ∀ c ∈ (print ps ++ rest).head?, Token.Kind.ofChar c ≠ .text := by
  obtain ⟨p, ps, rfl⟩ := List.exists_cons_of_ne_nil hps
  simp only [print, List.flatMap_cons, List.append_assoc]
  refine p.1.head_print ?_
  rintro c ⟨rfl⟩
  simp [p.2.kind_char]

theorem token_or_blank {ps : List (Gap × PointerSymbol)} {t : Token} (ht : t ∈ tokens ps) :
    (∃ p : PointerSymbol, t = p.token) ∨ t.kind = .blank := by
  obtain ⟨p, -, ht⟩ := List.mem_flatMap.mp ht
  rcases List.mem_append.mp ht with ht | ht
  case inl => exact .inr (Gap.kind_of_mem ht)
  case inr => exact .inl ⟨p.2, List.mem_singleton.mp ht⟩

end PointerSymbol

namespace Buffer

variable {buf : Buffer} {i : Nat} {p : PointerSymbol}

theorem symbol?_pointer (h : buf.tokens[i]? = some p.token) : buf.symbol? i = some p.char := by
  simp [symbol?, isSymbol, kind?, chars, h, PointerSymbol.token]

theorem isPointer_pointer (h : buf.tokens[i]? = some p.token) : Skip.isPointer buf i = true := by
  have hp := p.isPointer
  simp only [Skip.isPointer, symbol?_pointer h]
  rcases hp with hp | hp | hp <;> simp [hp]

theorem isBlank_pointer (h : buf.tokens[i]? = some p.token) : buf.isBlank i = false :=
  isBlank_eq_false h (by simp [PointerSymbol.token])

end Buffer

namespace Skip

variable {profile : Profile} {buf : Buffer} {i limit : Nat} {ps : List (Gap × PointerSymbol)}
  {after : Gap} {name : Ident}

theorem nameEnd_blank (hb : buf.WellFormed) (h : buf.isBlank i = true) (hi : i < limit) :
    nameEnd profile buf limit i = afterSuffixes buf limit i (buf.afterBlanks i limit) := by
  have ht := Buffer.isText_eq_false_of_isBlank h
  have hsym := Buffer.symbol?_eq_none_of_isBlank h
  have hblock : block? profile buf false i = none := by simp [block?, opens?, hsym]
  rw [nameEnd]
  simp [hi, ht, isNameSymbol, Buffer.matchesAt_doubleColon hb, Buffer.isChar, hsym]
  split
  case h_1 hb => cases hblock.symm.trans hb
  case h_2 => rw [if_pos h]

theorem isNameSymbol_of_isPointer (h : isPointer buf i = true) : isNameSymbol buf i = true := by
  unfold isPointer at h
  unfold isNameSymbol
  split at h
  case h_2 => cases h
  case h_1 c hc =>
    simp only [Bool.or_eq_true, decide_eq_true_eq] at h
    obtain (rfl | rfl) | rfl := h <;> simp

theorem nameEnd_pointer (h : isPointer buf i = true) (hi : i < limit) :
    nameEnd profile buf limit i = nameEnd profile buf limit (i + 1) := by
  rw [nameEnd, if_pos hi, if_pos (by simp [isNameSymbol_of_isPointer h])]

theorem size_ne_zero {g : Gap} (h : g.chars ≠ []) : g.size ≠ 0 := by
  simp [Gap.size, Gap.tokens, h]

section Word

variable (h : buf.Holds i (PointerSymbol.tokens ps ++ (after.tokens ++ name.tokens)))
  (hl : i + (PointerSymbol.tokens ps).length + after.size + name.size ≤ limit)

include h hl

-- Behind blanks all pointer symbols belong to the word, and the name does not.
theorem afterSuffixes_pointers : afterSuffixes buf limit i (buf.afterBlanks i limit) =
    i + (PointerSymbol.tokens ps).length := by
  induction ps generalizing i
  case nil =>
    rw [PointerSymbol.tokens_nil, List.nil_append] at h
    obtain ⟨hafter, hname⟩ := Buffer.holds_append.mp h
    change buf.Holds (i + after.size) name.tokens at hname
    simp only [PointerSymbol.tokens_nil, List.length_nil] at hl
    have ⟨t, ht, htoken⟩ := hname.token (Nat.le_refl _) (Nat.lt_add_of_pos_right name.size_pos)
    have hblank := Buffer.isBlank_eq_false_of_plain htoken (name.isPlain ht)
    rw [Gap.afterBlanks_eq hafter (by omega) (.inr hblank), afterSuffixes,
      if_neg (by simp [not_isTypeSuffix_ident name hname])]
    rfl
  case cons p ps hi =>
    rw [PointerSymbol.tokens_cons, List.append_assoc, List.cons_append, Buffer.holds_append] at h
    obtain ⟨hgap, hsymbol, hrest⟩ := h
    change buf.tokens[i + p.1.size]? = _ at hsymbol
    change buf.Holds (i + p.1.size + 1) _ at hrest
    rw [PointerSymbol.length_tokens_cons] at hl ⊢
    have hsuffix : isTypeSuffix buf (i + p.1.size) = true := by
      simp [isTypeSuffix, Buffer.isPointer_pointer hsymbol]
    rw [Gap.afterBlanks_eq hgap (by omega) (.inr (Buffer.isBlank_pointer hsymbol)), afterSuffixes,
      if_pos ⟨by omega, hsuffix⟩, hi hrest (by omega)]
    omega

theorem nameEnd_pointers (hb : buf.WellFormed)
    (hs : (∃ p ∈ ps, p.1.chars ≠ []) ∨ after.chars ≠ []) :
    nameEnd profile buf limit i = i + (PointerSymbol.tokens ps).length := by
  have hpos := name.size_pos
  induction ps generalizing i
  case nil =>
    have hne : after.chars ≠ [] := hs.resolve_left (by simp)
    have h' : buf.Holds i (after.tokens ++ name.tokens) := h
    have hafter := (Buffer.holds_append.mp h').1
    have hblank := (Gap.isBlank_of_holds hafter (size_ne_zero hne)).2
    exact (nameEnd_blank hb hblank (by omega)).trans (afterSuffixes_pointers h hl)
  case cons p ps hi =>
    have h' := h
    rw [PointerSymbol.tokens_cons, List.append_assoc, List.cons_append, Buffer.holds_append] at h'
    obtain ⟨hgap, hsymbol, hrest⟩ := h'
    change buf.tokens[i + p.1.size]? = _ at hsymbol
    change buf.Holds (i + p.1.size + 1) _ at hrest
    by_cases hne : p.1.chars = []
    case neg =>
      have hblank := (Gap.isBlank_of_holds hgap (size_ne_zero hne)).2
      refine (nameEnd_blank hb hblank ?_).trans (afterSuffixes_pointers h hl)
      rw [PointerSymbol.length_tokens_cons] at hl
      omega
    case pos =>
      have hsize : p.1.size = 0 := by simp [Gap.size, Gap.tokens, hne]
      have hs : (∃ p ∈ ps, p.1.chars ≠ []) ∨ after.chars ≠ [] := by simpa [hne] using hs
      rw [hsize, Nat.add_zero] at hsymbol hrest
      rw [PointerSymbol.length_tokens_cons, hsize] at hl ⊢
      rw [nameEnd_pointer (Buffer.isPointer_pointer hsymbol) (by omega), hi hrest (by omega) hs]
      omega

end Word

theorem name?_word (w : PlainWord) (h : buf.Holds i w.tokens) (hl : i + w.size ≤ limit) :
    name? profile buf limit i = some (min (nameEnd profile buf limit (i + w.size)) limit) := by
  have hpos := w.size_pos
  have ⟨t, ht, hi⟩ := h.token (Nat.le_refl i) (Nat.lt_add_of_pos_right hpos)
  have hid := Buffer.isIdentifier_of_plain hi (w.isPlain ht)
  have hn : (buf.isText i || isNameSymbol buf i) = true := by
    simp only [isIdentifier, Bool.or_eq_true, Buffer.isChar, decide_eq_true_eq] at hid
    rcases hid with hid | hid <;> simp [hid, isNameSymbol]
  have he := nameEnd_plain profile h (fun t ht => w.isPlain ht) hl
  rw [nameEnd, if_pos (by omega), if_pos (by simp [hn])] at he
  rw [name?, if_pos ⟨by omega, hn⟩, he]
  rfl

-- No comment starts with the blanks before a name or behind a modifier.
def PlainBlanks (profile : Profile) (buf : Buffer) : Prop :=
  ∀ i, buf.isBlank i = true → isPointer buf (i + 1) = false →
    (∀ s ∈ profile.lineComments, buf.matchesAt i s = false) ∧
      ∀ s ∈ profile.blockComments, buf.matchesAt i s.opener = false

theorem Uncommented.plainBlanks (h : Uncommented profile buf) : PlainBlanks profile buf :=
  fun i _ _ => ⟨h.line i, h.block i⟩

theorem PlainBlanks.enclosed?_eq_none (hc : PlainBlanks profile buf) (h : buf.isBlank i = true)
    (hp : isPointer buf (i + 1) = false) : enclosed? profile buf true i = none := by
  have hsym := Buffer.symbol?_eq_none_of_isBlank h
  have ⟨hline, hblock⟩ := hc i h hp
  have hb : blockSymbols? profile buf i = none :=
    List.find?_eq_none.mpr fun s hs => by simp [hblock s hs]
  have hl : lineSymbol? profile buf i = none :=
    List.find?_eq_none.mpr fun s hs => by simp [hline s hs]
  simp [enclosed?, quoted?, comment?, blockComment?, lineComment?, block?, string?, opens?, hb, hl,
    hsym]

theorem PlainBlanks.at?_eq_none (hc : PlainBlanks profile buf) (h : buf.isBlank i = true)
    (hp : isPointer buf (i + 1) = false) : Word.at? profile buf limit i = none := by
  have hn : name? profile buf limit i = none := by
    simp [name?, Buffer.isText_eq_false_of_isBlank h, isNameSymbol,
      Buffer.symbol?_eq_none_of_isBlank h]
  simp [Word.at?, hn, hc.enclosed?_eq_none h hp]

theorem isPointer_eq_false_of_plain {t : Token} (hi : buf.tokens[i]? = some t) (ht : t.IsPlain) :
    isPointer buf i = false := by
  unfold isPointer
  split
  case h_2 => rfl
  case h_1 c hc =>
    obtain rfl := Buffer.eq_of_isChar_plain hi ht (c := c) (by simp [Buffer.isChar, hc])
    rfl

theorem isPointer_eq_false_of_isBlank (h : buf.isBlank i = true) : isPointer buf i = false := by
  simp [isPointer, Buffer.symbol?_eq_none_of_isBlank h]

theorem not_isPointer_ident (w : Ident) (h : buf.Holds i w.tokens) : isPointer buf i = false :=
  (Bool.or_eq_false_iff.mp (not_isTypeSuffix_ident w h)).1

end Skip

namespace PointerDeclaration

variable (d : PointerDeclaration)

def printCore : List Char :=
  d.type.chars ++ (PointerSymbol.print d.pointers ++ (d.after.chars ++ d.name.chars))

def print : List Char :=
  Declaration.printWords d.modifiers ++ d.printCore

-- Blanks stand before, between or behind the pointer symbols.
def Spaced : Prop :=
  (∃ p ∈ d.pointers, p.1.chars ≠ []) ∨ d.after.chars ≠ []

def coreTokens : List Token :=
  d.type.tokens ++ (PointerSymbol.tokens d.pointers ++ (d.after.tokens ++ d.name.tokens))

def tokens : List Token :=
  Declaration.wordTokens d.modifiers ++ d.coreTokens

theorem scan_print : Token.scan d.print = d.tokens := by
  have hname : Token.scan d.name.chars = d.name.tokens := rfl
  have hblank : ∀ c ∈ d.name.chars.head?, Token.Kind.ofChar c ≠ .blank := by
    simpa using d.name.head_print []
  rw [print, printCore, Declaration.scan_printWords_append _ (d.type.head_print _),
    d.type.scan_append (PointerSymbol.head_print d.pointers_ne_nil _),
    PointerSymbol.scan_print_append, d.after.scan_append hblank, hname]
  rfl

theorem mem_print {c : Char} (h : c ∈ d.print) :
    c.isAlphanum = true ∨ c ∈ "_ \t*&^".toList := by
  have hident (w : Ident) (hc : c ∈ w.chars) : c.isAlphanum = true ∨ c ∈ "_ \t*&^".toList :=
    (w.plain c hc).imp_right fun h => by simp [h]
  have hgap (g : Gap) (hc : c ∈ g.chars) : c.isAlphanum = true ∨ c ∈ "_ \t*&^".toList :=
    .inr (by rcases g.blank c hc with h | h <;> simp [h])
  simp only [print, printCore, Declaration.printWords, PointerSymbol.print, List.mem_append,
    List.mem_flatMap, List.mem_singleton] at h
  rcases h with ⟨w, -, h | h⟩ | h | ⟨p, -, h | h⟩ | h | h
  · exact hident w.1 h
  · exact hgap w.2.toGap h
  · exact hident d.type h
  · exact hgap p.1 h
  · exact .inr (by rcases p.2.isPointer with hp | hp | hp <;> simp [h, hp])
  · exact hgap d.after h
  · exact hident d.name h

def typeStop (i : Nat) : Nat :=
  i + d.type.size + (PointerSymbol.tokens d.pointers).length

def nameStart (i : Nat) : Nat :=
  d.typeStop i + d.after.size

def places (i : Nat) : List (Ident × Space) → List Word
  | [] => [⟨i, d.typeStop i, false⟩, ⟨d.nameStart i, d.nameStart i + d.name.size, false⟩]
  | w :: ws => ⟨i, i + w.1.size, false⟩ :: places (i + w.1.size + 1) ws

structure Ends (buf : Buffer) (i : Nat) (ms : List (Ident × Space)) : Prop where
  holds : buf.Holds i (Declaration.wordTokens ms ++ d.coreTokens)
  size_eq : buf.size = i + (Declaration.wordTokens ms ++ d.coreTokens).length

variable {d} {profile : Profile} {buf : Buffer} {i : Nat} {m : Ident × Space}
  {ms : List (Ident × Space)}

namespace Ends

theorem modifier (h : d.Ends buf i (m :: ms)) : buf.Holds i m.1.tokens ∧
    buf.tokens[i + m.1.size]? = some ⟨.blank, m.2.chars⟩ ∧ d.Ends buf (i + m.1.size + 1) ms := by
  have ⟨hholds, hsize⟩ := h
  rw [Declaration.wordTokens_cons, List.append_assoc, List.cons_append] at hholds hsize
  have ⟨hm, hblank, hrest⟩ := Buffer.holds_append.mp hholds
  refine ⟨hm, hblank, hrest, ?_⟩
  rw [hsize, List.length_append, List.length_cons, Ident.size]
  omega

theorem core (h : d.Ends buf i []) : buf.Holds i d.type.tokens ∧
    buf.Holds (i + d.type.size) (PointerSymbol.tokens d.pointers ++
      (d.after.tokens ++ d.name.tokens)) :=
  Buffer.holds_append.mp (show buf.Holds i d.coreTokens from h.holds)

theorem rest (h : d.Ends buf i []) :
    buf.Holds (i + d.type.size) (PointerSymbol.tokens d.pointers) ∧
      buf.Holds (d.typeStop i) d.after.tokens ∧ buf.Holds (d.nameStart i) d.name.tokens := by
  have ⟨hpointers, hrest⟩ := Buffer.holds_append.mp h.core.2
  exact ⟨hpointers, Buffer.holds_append.mp hrest⟩

theorem size_core (h : d.Ends buf i []) : buf.size = d.nameStart i + d.name.size := by
  have hsize : buf.size = i + d.coreTokens.length := h.size_eq
  rw [hsize]
  simp only [coreTokens, List.length_append, nameStart, typeStop, Ident.size, Gap.size]
  omega

-- The rest begins with another modifier or with the type.
theorem not_isPointer (h : d.Ends buf i ms) : Skip.isPointer buf i = false := by
  cases ms
  case nil => exact Skip.not_isPointer_ident d.type h.core.1
  case cons m ms => exact Skip.not_isPointer_ident m.1 h.modifier.1

end Ends

theorem lt_typeStop (d : PointerDeclaration) (i : Nat) : i < d.typeStop i := by
  have := d.type.size_pos
  unfold typeStop
  omega

theorem read_name (hc : Skip.PlainBlanks profile buf) (hh : ∀ k, isDefault buf k = false)
    (h : d.Ends buf i []) : Word.read profile buf (isDefault buf) buf.size (d.typeStop i) =
      ([⟨d.nameStart i, d.nameStart i + d.name.size, false⟩], buf.size) := by
  obtain ⟨_, hafter, hname⟩ := h.rest
  have hsize := h.size_core
  have hpos := d.name.size_pos
  have hread : Word.read profile buf (isDefault buf) buf.size (d.nameStart i) =
      ([⟨d.nameStart i, d.nameStart i + d.name.size, false⟩], buf.size) := by
    have hend : Skip.nameEnd profile buf buf.size (d.nameStart i + d.name.size) =
        d.nameStart i + d.name.size := by
      rw [Skip.nameEnd, if_neg (by omega)]
    have hword : Word.at? profile buf buf.size (d.nameStart i) =
        some ⟨d.nameStart i, d.nameStart i + d.name.size, false⟩ :=
      Word.at?_plain d.name.toPlain hname (Nat.le_of_eq hsize.symm) hend
    rw [Word.read_word (by omega) (hh _) hword, ← hsize, Word.read_end (Nat.lt_irrefl _)]
  by_cases hg : d.after.size = 0
  case pos =>
    have hstart : d.nameStart i = d.typeStop i := by rw [nameStart, hg, Nat.add_zero]
    rwa [hstart] at hread ⊢
  case neg =>
    obtain ⟨hone, hblank⟩ := Gap.isBlank_of_holds hafter hg
    have hstart : d.nameStart i = d.typeStop i + 1 := by rw [nameStart, hone]
    have hp : Skip.isPointer buf (d.typeStop i + 1) = false :=
      hstart ▸ Skip.not_isPointer_ident d.name hname
    rw [Word.read_other (by omega) (hh _) (hc.at?_eq_none hblank hp), ← hstart, hread]

theorem read_places (hb : buf.WellFormed) (hs : d.Spaced) (hc : Skip.PlainBlanks profile buf)
    (hh : ∀ k, isDefault buf k = false) (h : d.Ends buf i ms) :
    Word.read profile buf (isDefault buf) buf.size i = (d.places i ms, buf.size) := by
  induction ms generalizing i
  case nil =>
    have hsize := h.size_core
    have hpos := d.type.size_pos
    have hlt : d.typeStop i ≤ buf.size := by
      unfold nameStart at hsize
      omega
    have hend : Skip.nameEnd profile buf buf.size (i + d.type.size) = d.typeStop i :=
      Skip.nameEnd_pointers h.core.2 (Nat.le_of_eq hsize.symm) hb hs
    have htype : Word.at? profile buf buf.size i = some ⟨i, d.typeStop i, false⟩ := by
      have hname : Skip.name? profile buf buf.size i =
          some (min (Skip.nameEnd profile buf buf.size (i + d.type.size)) buf.size) :=
        Skip.name?_word d.type.toPlain h.core.1 <| by
          unfold typeStop at hlt
          change i + d.type.size ≤ _
          omega
      rw [hend, Nat.min_eq_left hlt] at hname
      simp [Word.at?, hname]
    have := d.lt_typeStop i
    rw [Word.read_word (by omega) (hh i) htype, read_name hc hh h]
    rfl
  case cons m ms hi =>
    obtain ⟨hm, hblank, hrest⟩ := h.modifier
    have hpos := m.1.size_pos
    have hsize := Buffer.lt_size_of_token hblank
    have hisBlank : buf.isBlank (i + m.1.size) = true := Buffer.isBlank_iff.mpr ⟨_, hblank, rfl⟩
    have hend : Skip.nameEnd profile buf buf.size (i + m.1.size) = i + m.1.size := by
      cases ms
      case nil =>
        exact Phrase.nameEnd_before (v := d.type.toPlain) hb hisBlank d.type.ne_const hrest.core.1
      case cons v ms =>
        exact Phrase.nameEnd_before (v := v.1.toPlain) hb hisBlank v.1.ne_const hrest.modifier.1
    have hword : Word.at? profile buf buf.size i = some ⟨i, i + m.1.size, false⟩ :=
      Word.at?_plain m.1.toPlain hm (Nat.le_of_lt hsize) hend
    rw [Word.read_word (by omega) (hh i) hword]
    dsimp only
    rw [Word.read_other hsize (hh _) (hc.at?_eq_none hisBlank hrest.not_isPointer), hi hrest]
    rfl

end PointerDeclaration
end SourceDocs

import SourceDocs.Proofs.Token

namespace SourceDocs

structure PlainWord where
  chars : List Char
  ne_nil : chars ≠ []
  plain : ∀ c ∈ chars, c.isAlphanum ∨ c = '_'

-- The word `const` is not among the names, since it belongs to the type before it.
structure Ident where
  chars : List Char
  ne_nil : chars ≠ []
  plain : ∀ c ∈ chars, c.isAlphanum ∨ c = '_'
  ne_const : chars ≠ "const".toList

def Ident.toPlain (w : Ident) : PlainWord :=
  ⟨w.chars, w.ne_nil, w.plain⟩

structure Gap where
  chars : List Char
  blank : ∀ c ∈ chars, c = ' ' ∨ c = '\t'

structure Space extends Gap where
  ne_nil : chars ≠ []

def Gap.spaces (n : Nat) : Gap :=
  ⟨List.replicate n ' ', fun _ hc => .inl (List.eq_of_mem_replicate hc)⟩

def Space.single : Space :=
  ⟨.spaces 1, by simp [Gap.spaces]⟩

structure Phrase where
  words : List (PlainWord × Space)
  last : PlainWord
  -- Behind another word, `const` is a part of that word.
  ne_const : ∀ w ∈ (words.map Prod.fst ++ [last]).tail, w.chars ≠ "const".toList

namespace Phrase

def printWords (ws : List (PlainWord × Space)) : List Char :=
  ws.flatMap fun w => w.1.chars ++ w.2.chars

def print (p : Phrase) : List Char :=
  printWords p.words ++ p.last.chars

end Phrase

-- Words, a name, and maybe a default value.
structure Declaration where
  words : List (Ident × Space)
  name : Ident
  default? : Option (Gap × Gap × Ident)

namespace Declaration

def printWords (ws : List (Ident × Space)) : List Char :=
  ws.flatMap fun w => w.1.chars ++ w.2.chars

def printDefault : Option (Gap × Gap × Ident) → List Char
  | none => []
  | some (before, after, value) => before.chars ++ '=' :: (after.chars ++ value.chars)

def print (d : Declaration) : List Char :=
  printWords d.words ++ (d.name.chars ++ printDefault d.default?)

end Declaration

namespace Token

def IsPlain (t : Token) : Prop :=
  t.kind = .text ∨ t = ⟨.symbol, ['_']⟩

theorem IsPlain.not_blank {t : Token} (h : t.IsPlain) : t.kind ≠ .blank := by
  rcases h with h | rfl <;> simp [*]

theorem kind_scan_head {c : Char} {cs : List Char} {t : Token} (h : t ∈ (scan (c :: cs)).head?) :
    t.kind = Kind.ofChar c := by
  rw [scan, List.head?_cons, Option.mem_some_iff] at h
  exact h ▸ kind_lead c cs

theorem scan_symbol {c : Char} (h : Kind.ofChar c = .symbol) (cs : List Char) :
    scan (c :: cs) = ⟨.symbol, [c]⟩ :: scan cs := by
  simp only [scan, lead, h]

theorem ofChar_plain {c : Char} (h : c.isAlphanum ∨ c = '_') :
    Kind.ofChar c = .text ∨ c = '_' := by
  refine h.imp_left fun h => ?_
  simp [Kind.ofChar, h]

theorem ofChar_blank {c : Char} (h : c = ' ' ∨ c = '\t') : Kind.ofChar c = .blank := by
  obtain rfl | rfl := h <;> decide

end Token

namespace PlainWord

open Token

variable (w : PlainWord)

def tokens : List Token :=
  scan w.chars

def size : Nat :=
  w.tokens.length

theorem isPlain {t : Token} (ht : t ∈ w.tokens) : t.IsPlain := by
  obtain ⟨c, cs, hc, hk⟩ := ((scan_canonical w.chars).wellFormed t ht).ofChar_head
  have hp := ofChar_plain (w.plain c (mem_chars_of_mem_scan ht (by simp [hc])))
  cases hp
  case inl hp => exact .inl (hk ▸ hp)
  case inr hp =>
    subst hp
    have hw := (scan_canonical w.chars).wellFormed t ht
    replace hk : t.kind = .symbol := hk.symm
    simp only [WellFormed, hk] at hw
    obtain ⟨d, -, hd⟩ := hw
    obtain rfl : '_' = d := (List.cons.inj (hc.symm.trans hd)).1
    obtain ⟨kind, chars⟩ := t
    exact .inr (by simp_all)

theorem tokens_ne_nil : w.tokens ≠ [] := by
  intro h
  have := flatMap_chars_scan w.chars
  rw [show scan w.chars = [] from h] at this
  exact w.ne_nil this.symm

theorem size_pos : 0 < w.size :=
  List.length_pos_iff.mpr w.tokens_ne_nil

theorem first_plain : ∃ t ∈ w.tokens.head?, t.IsPlain :=
  ⟨_, List.head?_eq_some_head w.tokens_ne_nil, w.isPlain (List.head_mem _)⟩

theorem last_plain : ∃ t ∈ w.tokens.getLast?, t.IsPlain :=
  ⟨_, List.getLast?_eq_some_getLast w.tokens_ne_nil, w.isPlain (List.getLast_mem _)⟩

theorem scan_append {rest : List Char} (h : ∀ c ∈ rest.head?, Kind.ofChar c ≠ .text) :
    scan (w.chars ++ rest) = w.tokens ++ scan rest := by
  refine Token.scan_append fun t ht u hu => ?_
  cases rest
  case nil => simp [scan] at hu
  case cons c cs =>
    have hk := kind_scan_head hu
    have hp := w.isPlain (List.mem_of_getLast? ht)
    refine ⟨fun _ => hk ▸ h c rfl, fun hb => ?blank, fun hr => ?lineFeed⟩
    case blank => rcases hp with hp | hp <;> simp_all
    case lineFeed =>
      rcases hp with hp | hp
      case inl =>
        have hw := (scan_canonical w.chars).wellFormed t (List.mem_of_getLast? ht)
        simp only [WellFormed, hp, hr] at hw
        exact absurd (hw.2 '\r' (by simp)) (by decide)
      case inr => simp [hp] at hr

theorem head_print (rest : List Char) :
    ∀ c ∈ (w.chars ++ rest).head?, Kind.ofChar c ≠ .blank := by
  obtain ⟨c, cs, hc⟩ := List.exists_cons_of_ne_nil w.ne_nil
  have := ofChar_plain (w.plain c (by simp [hc]))
  rw [hc]
  rintro d ⟨rfl⟩ hd
  rcases this with h | rfl
  · simp [h] at hd
  · simp [Kind.ofChar] at hd

end PlainWord

namespace Ident

open Token

variable (w : Ident)

def tokens : List Token :=
  scan w.chars

def size : Nat :=
  w.tokens.length

theorem isPlain {t : Token} (ht : t ∈ w.tokens) : t.IsPlain :=
  w.toPlain.isPlain ht

theorem tokens_ne_nil : w.tokens ≠ [] :=
  w.toPlain.tokens_ne_nil

theorem size_pos : 0 < w.size :=
  w.toPlain.size_pos

theorem scan_append {rest : List Char} (h : ∀ c ∈ rest.head?, Kind.ofChar c ≠ .text) :
    scan (w.chars ++ rest) = w.tokens ++ scan rest :=
  w.toPlain.scan_append h

theorem head_print (rest : List Char) :
    ∀ c ∈ (w.chars ++ rest).head?, Kind.ofChar c ≠ .blank :=
  w.toPlain.head_print rest

end Ident

namespace Gap

open Token

variable (g : Gap)

def tokens : List Token :=
  if g.chars = [] then [] else [⟨.blank, g.chars⟩]

def size : Nat :=
  g.tokens.length

theorem scan_append {rest : List Char} (h : ∀ c ∈ rest.head?, Kind.ofChar c ≠ .blank) :
    scan (g.chars ++ rest) = g.tokens ++ scan rest := by
  have hb := g.blank
  unfold tokens
  cases hg : g.chars
  case nil => simp
  case cons c cs =>
    rw [hg] at hb
    have ⟨ht, hd⟩ := takeWhile_dropWhile_append rest
      (fun d hd => ofChar_blank (hb d (.tail _ hd))) h
    rw [List.cons_append, scan]
    simp [lead, ofChar_blank (hb c (.head _)), ht, hd]

theorem scan_chars : scan g.chars = g.tokens := by
  have h : scan (g.chars ++ []) = _ := g.scan_append (by simp)
  simpa [scan] using h

theorem head_print {rest : List Char} (h : ∀ c ∈ rest.head?, Kind.ofChar c ≠ .text) :
    ∀ c ∈ (g.chars ++ rest).head?, Kind.ofChar c ≠ .text := by
  have hb := g.blank
  cases hg : g.chars
  case nil => exact h
  case cons c cs =>
    rintro d ⟨rfl⟩
    simp [ofChar_blank (hb c (by simp [hg]))]

end Gap

theorem Gap.kind_of_mem {g : Gap} {t : Token} (ht : t ∈ g.tokens) : t.kind = .blank := by
  unfold tokens at ht
  split at ht
  case isTrue => simp at ht
  case isFalse => simp [List.mem_singleton.mp ht]

theorem Space.tokens_eq (s : Space) : s.tokens = [⟨.blank, s.chars⟩] :=
  if_neg s.ne_nil

namespace Phrase

open Token

def wordTokens (ws : List (PlainWord × Space)) : List Token :=
  ws.flatMap fun w => w.1.tokens ++ w.2.tokens

def tokens (p : Phrase) : List Token :=
  wordTokens p.words ++ p.last.tokens

theorem scan_printWords_append (ws : List (PlainWord × Space)) {rest : List Char}
    (h : ∀ c ∈ rest.head?, Kind.ofChar c ≠ .blank) :
    scan (printWords ws ++ rest) = wordTokens ws ++ scan rest := by
  induction ws
  case nil => rfl
  case cons w ws hi =>
    have hb : ∀ c ∈ (printWords ws ++ rest).head?, Kind.ofChar c ≠ .blank := by
      cases ws
      case nil => exact h
      case cons v ws =>
        simp only [printWords, List.flatMap_cons, List.append_assoc]
        exact v.1.head_print _
    have ht : ∀ c ∈ (w.2.chars ++ (printWords ws ++ rest)).head?, Kind.ofChar c ≠ .text := by
      obtain ⟨c, cs, hc⟩ := List.exists_cons_of_ne_nil w.2.ne_nil
      have := ofChar_blank (w.2.blank c (by simp [hc]))
      rw [hc]
      rintro d ⟨rfl⟩
      simp [this]
    calc scan (printWords (w :: ws) ++ rest)
      _ = scan (w.1.chars ++ (w.2.chars ++ (printWords ws ++ rest))) := by simp [printWords]
      _ = w.1.tokens ++ (w.2.tokens ++ (wordTokens ws ++ scan rest)) := by
        rw [w.1.scan_append ht, w.2.scan_append hb, hi]
      _ = wordTokens (w :: ws) ++ scan rest := by simp [wordTokens]

theorem scan_print_append (p : Phrase) {rest : List Char}
    (h : ∀ c ∈ rest.head?, Kind.ofChar c ≠ .text) :
    scan (p.print ++ rest) = p.tokens ++ scan rest := by
  rw [print, tokens, List.append_assoc, scan_printWords_append _ (p.last.head_print _),
    p.last.scan_append h, List.append_assoc]

theorem head_print (p : Phrase) (rest : List Char) :
    ∀ c ∈ (p.print ++ rest).head?, Kind.ofChar c ≠ .blank := by
  unfold print
  cases p.words
  case nil =>
    simp only [printWords, List.flatMap_nil, List.nil_append]
    exact p.last.head_print _
  case cons w ws =>
    simp only [printWords, List.flatMap_cons, List.append_assoc]
    exact w.1.head_print _

theorem plain_or_blank {p : Phrase} {t : Token} (ht : t ∈ p.tokens) :
    t.IsPlain ∨ t.kind = .blank := by
  simp only [tokens, wordTokens, List.mem_append, List.mem_flatMap] at ht
  rcases ht with ⟨w, _, ht | ht⟩ | ht
  case inl.inl => exact .inl (w.1.isPlain ht)
  case inl.inr =>
    rw [w.2.tokens_eq, List.mem_singleton] at ht
    exact .inr (by simp [ht])
  case inr => exact .inl (p.last.isPlain ht)

-- A phrase begins and ends with a word, so that no blanks are at its ends.
theorem first_plain (p : Phrase) : ∃ t ∈ p.tokens.head?, t.IsPlain := by
  obtain ⟨_ | ⟨w, ws⟩, last, _⟩ := p
  case nil => simpa [tokens, wordTokens] using last.first_plain
  case cons =>
    obtain ⟨t, ht, hp⟩ := w.1.first_plain
    exact ⟨t, by simp [tokens, wordTokens, Option.mem_def.mp ht], hp⟩

theorem last_plain (p : Phrase) : ∃ t ∈ p.tokens.getLast?, t.IsPlain := by
  obtain ⟨t, ht, hp⟩ := p.last.last_plain
  exact ⟨t, by simp [tokens, List.getLast?_append, Option.mem_def.mp ht], hp⟩

end Phrase

namespace Declaration

open Token

def wordTokens (ws : List (Ident × Space)) : List Token :=
  ws.flatMap fun w => w.1.tokens ++ w.2.tokens

def defaultTokens : Option (Gap × Gap × Ident) → List Token
  | none => []
  | some (before, after, value) =>
    before.tokens ++ ⟨.symbol, ['=']⟩ :: (after.tokens ++ value.tokens)

def tokens (d : Declaration) : List Token :=
  wordTokens d.words ++ (d.name.tokens ++ defaultTokens d.default?)

def plainWords (ws : List (Ident × Space)) : List (PlainWord × Space) :=
  ws.map fun w => (w.1.toPlain, w.2)

theorem wordTokens_plainWords (ws : List (Ident × Space)) :
    Phrase.wordTokens (plainWords ws) = wordTokens ws := by
  simp only [Phrase.wordTokens, plainWords, List.flatMap_map]
  rfl

theorem ne_const_plainWords {ws : List (Ident × Space)} {name : Ident} {w : PlainWord}
    (hw : w ∈ ((plainWords ws).map Prod.fst ++ [name.toPlain]).tail) :
    w.chars ≠ "const".toList := by
  simp only [plainWords, List.map_map] at hw
  rcases List.mem_append.mp (List.mem_of_mem_tail hw) with hw | hw
  case inl =>
    obtain ⟨v, -, rfl⟩ := List.mem_map.mp hw
    exact v.1.ne_const
  case inr => exact List.mem_singleton.mp hw ▸ name.ne_const

def phrase (d : Declaration) : Phrase :=
  ⟨plainWords d.words, d.name.toPlain, fun _ => ne_const_plainWords⟩

theorem tokens_eq (d : Declaration) :
    d.tokens = d.phrase.tokens ++ defaultTokens d.default? := by
  simp only [tokens, Phrase.tokens, phrase, wordTokens_plainWords, List.append_assoc]
  rfl

theorem first_plain (d : Declaration) : ∃ t ∈ d.tokens.head?, t.IsPlain := by
  obtain ⟨t, ht, hp⟩ := d.phrase.first_plain
  exact ⟨t, by simp [tokens_eq, Option.mem_def.mp ht], hp⟩

theorem last_plain (d : Declaration) : ∃ t ∈ d.tokens.getLast?, t.IsPlain := by
  obtain ⟨ws, name, _ | ⟨before, after, value⟩⟩ := d
  case none => simpa [tokens_eq, defaultTokens] using phrase ⟨ws, name, none⟩ |>.last_plain
  case some =>
    obtain ⟨t, ht, hp⟩ := value.toPlain.last_plain
    change t ∈ value.tokens.getLast? at ht
    refine ⟨t, ?_, hp⟩
    simp [tokens, defaultTokens, List.getLast?_append, List.getLast?_cons, Option.mem_def.mp ht]

theorem scan_printWords_append (ws : List (Ident × Space)) {rest : List Char}
    (h : ∀ c ∈ rest.head?, Kind.ofChar c ≠ .blank) :
    scan (printWords ws ++ rest) = wordTokens ws ++ scan rest := by
  have hprint : Phrase.printWords (plainWords ws) = printWords ws := by
    simp only [Phrase.printWords, plainWords, List.flatMap_map]
    rfl
  rw [← hprint, Phrase.scan_printWords_append _ h, wordTokens_plainWords]

theorem head_printDefault_append (d : Option (Gap × Gap × Ident)) {rest : List Char}
    (h : ∀ c ∈ rest.head?, Kind.ofChar c ≠ .text) :
    ∀ c ∈ (printDefault d ++ rest).head?, Kind.ofChar c ≠ .text := by
  rcases d with _ | ⟨before, after, value⟩
  case none => exact h
  case some =>
    simp only [printDefault, List.append_assoc, List.cons_append]
    refine before.head_print ?_
    rintro c ⟨rfl⟩
    decide

theorem scan_printDefault_append (d : Option (Gap × Gap × Ident)) {rest : List Char}
    (h : ∀ c ∈ rest.head?, Kind.ofChar c ≠ .text) :
    scan (printDefault d ++ rest) = defaultTokens d ++ scan rest := by
  rcases d with _ | ⟨before, after, value⟩
  case none => rfl
  case some =>
    have hs : ∀ c ∈ ('=' :: (after.chars ++ (value.chars ++ rest))).head?,
        Kind.ofChar c ≠ .blank := by
      rintro c ⟨rfl⟩
      decide
    simp only [printDefault, defaultTokens, List.append_assoc, List.cons_append]
    rw [before.scan_append hs, scan_symbol (by decide), after.scan_append (value.head_print _),
      value.scan_append h]

-- A declaration is cut apart from what follows it, unless that goes on with its last name.
theorem scan_print_append (d : Declaration) {rest : List Char}
    (h : ∀ c ∈ rest.head?, Kind.ofChar c ≠ .text) :
    scan (d.print ++ rest) = d.tokens ++ scan rest := by
  simp only [print, tokens, List.append_assoc]
  rw [scan_printWords_append _ (d.name.head_print _),
    d.name.scan_append (head_printDefault_append _ h), scan_printDefault_append _ h]

theorem head_print (d : Declaration) (rest : List Char) :
    ∀ c ∈ (d.print ++ rest).head?, Kind.ofChar c ≠ .blank := by
  unfold print
  cases d.words
  case nil =>
    simp only [printWords, List.flatMap_nil, List.nil_append, List.append_assoc]
    exact d.name.head_print _
  case cons w ws =>
    simp only [printWords, List.flatMap_cons, List.append_assoc]
    exact w.1.head_print _

end Declaration
end SourceDocs

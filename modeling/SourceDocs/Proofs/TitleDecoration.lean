import SourceDocs.Proofs.Symbol.Parentheses
import SourceDocs.Prototype.Title

namespace SourceDocs.Prototype

open Text Unicode

variable {c : Char} {cs before block name front : List Char}

structure IsName (name : List Char) : Prop where
  ne_nil : name ≠ []
  word : ∀ c ∈ name, c.isAlphanum = true ∨ c = '_'

inductive Qualifier
  | dot
  | colons

def Qualifier.chars : Qualifier → List Char
  | dot => ['.']
  | colons => [':', ':']

structure Decoration where
  qualifier : Option (List Char × Qualifier)
  sigil : Option Char
  spaces : Nat
  parameters : List Char
  sigil_mem : ∀ c ∈ sigil, c = '$' ∨ c = '@' ∨ c = '%'
  -- There are none, or they are in parentheses that hold nothing but brackets in balance.
  isBlock : parameters ≠ [] → IsBlock parameters ∧ parameters.head? = some '('

namespace Decoration

def qualification (d : Decoration) : List Char :=
  (d.qualifier.map fun q => q.1 ++ q.2.chars).getD []

def word (d : Decoration) (name : List Char) : List Char :=
  d.sigil.toList ++ name

def decorate (d : Decoration) (name : List Char) : List Char :=
  d.qualification ++ d.word name ++ List.replicate d.spaces ' ' ++ d.parameters

def none : Decoration where
  qualifier := .none
  sigil := .none
  spaces := 0
  parameters := []
  sigil_mem := nofun
  isBlock h := absurd rfl h

theorem decorate_none (name : List Char) : none.decorate name = name := by
  simp [decorate, qualification, word, none]

end Decoration

namespace IsName

theorem not_white (h : IsName name) : ∀ c ∈ name, isWhiteSpace c = false :=
  fun c hc => isWhiteSpace_plain (h.word c hc)

theorem ne_of_symbol (h : IsName name) {s : Char} (hs : s.isAlphanum = false) (hs' : s ≠ '_') :
    ∀ c ∈ name, c ≠ s := by
  rintro c hc rfl
  rcases h.word c hc with h | h
  case inl => simp [hs] at h
  case inr => exact hs' h

theorem not_closing (h : IsName name) : ∀ c ∈ name, Text.isClosing c = false := by
  intro c hc
  simp [Text.isClosing, h.ne_of_symbol (s := ')') (by decide) (by decide) c hc,
    h.ne_of_symbol (s := ']') (by decide) (by decide) c hc,
    h.ne_of_symbol (s := '\x7d') (by decide) (by decide) c hc,
    h.ne_of_symbol (s := '>') (by decide) (by decide) c hc]

end IsName

theorem afterQualifiers?_plain {before : Option Char} (h : ∀ c ∈ cs, c ≠ '.' ∧ c ≠ ':') :
    afterQualifiers? before cs = .none := by
  induction cs generalizing before
  case nil => rfl
  case cons c cs hi =>
    obtain ⟨hc, hcs⟩ := List.forall_mem_cons.mp h
    simp [afterQualifiers?, hi hcs, hc]

-- The text before the last separator does not matter.
theorem afterQualifiers?_append {before : Option Char} (q : Qualifier)
    (h : ∀ c ∈ cs, c ≠ '.' ∧ c ≠ ':') (hb : isBlank cs = false) (front : List Char) :
    afterQualifiers? before (front ++ q.chars ++ cs) = some cs := by
  have hn (before : Option Char) : afterQualifiers? before cs = .none := afterQualifiers?_plain h
  induction front generalizing before
  case nil => cases q <;> simp [Qualifier.chars, afterQualifiers?, hn, hb]
  case cons c front hi =>
    have hi : afterQualifiers? (some c) (front ++ q.chars ++ cs) = some cs := hi
    rw [List.cons_append, List.cons_append, afterQualifiers?, hi, Option.some_or]

theorem withoutSigil_append {sigil : Option Char} (hs : ∀ c ∈ sigil, c = '$' ∨ c = '@' ∨ c = '%')
    (h : IsName name) : withoutSigil (sigil.toList ++ name) = name := by
  obtain ⟨c, cs, rfl⟩ := List.exists_cons_of_ne_nil h.ne_nil
  have hc (s : Char) (hs : s.isAlphanum = false) (hs' : s ≠ '_') : c ≠ s :=
    h.ne_of_symbol hs hs' c (.head _)
  cases sigil
  case none =>
    cases cs
    case nil => rfl
    case cons =>
      simp [withoutSigil, hc '$' (by decide) (by decide), hc '@' (by decide) (by decide),
        hc '%' (by decide) (by decide)]
  case some s => rcases hs s rfl with rfl | rfl | rfl <;> rfl

theorem trimEnd_append_block (h : IsBlock block) : trimEnd (front ++ block) = front ++ block := by
  obtain ⟨opener, inner, closer, hc, -, rfl⟩ := h
  refine trimEnd_eq_self fun c hlast => ?_
  rw [← List.append_assoc, List.getLast?_concat, Option.mem_some_iff] at hlast
  subst hlast
  unfold closing? at hc
  split at hc <;> cases hc <;> decide

theorem trimStart_append (h : ∀ c ∈ cs.head?, isWhiteSpace c = false) :
    trimStart (front ++ cs) = trimStart front ++ cs := by
  rw [trimStart, List.dropWhile_append]
  split
  case isTrue hf =>
    rw [trimStart, List.isEmpty_iff.mp hf, List.nil_append]
    exact trimStart_eq_self h
  case isFalse => rfl

namespace Decoration

variable {d : Decoration} (h : IsName name)

include h

theorem mem_word (hc : c ∈ d.word name) : isWhiteSpace c = false ∧ c ≠ '.' ∧ c ≠ ':' := by
  rcases List.mem_append.mp hc with hc | hc
  case inl => rcases d.sigil_mem c (Option.mem_toList.mp hc) with rfl | rfl | rfl <;> decide
  case inr =>
    exact ⟨h.not_white c hc, h.ne_of_symbol (by decide) (by decide) c hc,
      h.ne_of_symbol (by decide) (by decide) c hc⟩

theorem word_ne_nil : d.word name ≠ [] :=
  List.append_ne_nil_of_right_ne_nil _ h.ne_nil

theorem trimStart_qualified (rest : List Char) :
    trimStart (d.qualification ++ d.word name ++ rest) =
      trimStart d.qualification ++ d.word name ++ rest := by
  rw [List.append_assoc, List.append_assoc]
  refine trimStart_append fun c hc => ?_
  rw [List.head?_append_of_ne_nil _ (word_ne_nil h)] at hc
  exact (mem_word h (List.mem_of_mem_head? hc)).1

theorem trimEnd_qualified : trimEnd (front ++ d.word name) = front ++ d.word name := by
  refine trimEnd_eq_self fun c hc => ?_
  rw [List.getLast?_append_of_ne_nil _ (word_ne_nil h)] at hc
  exact (mem_word h (List.mem_of_getLast? hc)).1

-- The name ends with a character that closes nothing.
theorem splitParameters_qualified :
    Symbol.splitParameters (front ++ d.word name) = (front ++ d.word name, .none) := by
  refine Symbol.splitParameters_of_forall_not fun i before block hp => ?_
  obtain ⟨back, last, rfl⟩ := List.eq_nil_or_concat name |>.resolve_left h.ne_nil
  have htext := hp.trimEnd_eq
  rw [trimEnd_qualified h, word, List.concat_eq_append, ← List.append_assoc,
    ← List.append_assoc] at htext
  have hlast := hp.isBlock.isClosing_last htext
  rw [h.not_closing last (by simp)] at hlast
  cases hlast

theorem splitParameters_decorate : (Symbol.splitParameters (trim (d.decorate name))).1 =
    trimStart d.qualification ++ d.word name := by
  have hspaces : ∀ c ∈ List.replicate d.spaces ' ', isWhiteSpace c = true := by
    intro c hc
    rw [List.eq_of_mem_replicate hc]
    decide
  have htrim : trim (d.decorate name) = trimEnd (trimStart d.qualification ++ d.word name ++
      (List.replicate d.spaces ' ' ++ d.parameters)) := by
    rw [trim, decorate, List.append_assoc, trimStart_qualified h]
  rw [htrim]
  by_cases hp : d.parameters = []
  case pos =>
    rw [hp, List.append_nil, trimEnd_append_white hspaces, trimEnd_qualified h,
      splitParameters_qualified h]
  case neg =>
    obtain ⟨hblock, hparen⟩ := d.isBlock hp
    rw [← List.append_assoc]
    have hend : trimEnd (trimStart d.qualification ++ d.word name ++
        List.replicate d.spaces ' ' ++ d.parameters) = trimStart d.qualification ++ d.word name ++
        List.replicate d.spaces ' ' ++ d.parameters := trimEnd_append_block hblock
    have hne : trimStart d.qualification ++ d.word name ++ List.replicate d.spaces ' ' ≠ [] :=
      List.append_ne_nil_of_left_ne_nil
        (List.append_ne_nil_of_right_ne_nil _ (word_ne_nil h)) _
    obtain ⟨after, -, hsplit⟩ := (Symbol.parametersAt_of_block (by rw [hend]) hblock hparen
      hne).splitParameters_eq
    rw [hend, hsplit, trimEnd_append_white hspaces, trimEnd_qualified h]

-- The name has no separators, so the last one is that of the qualifier.
theorem getD_afterQualifiers? :
    (afterQualifiers? .none (trimStart d.qualification ++ d.word name)).getD
      (trimStart d.qualification ++ d.word name) = d.word name := by
  have hword : ∀ c ∈ d.word name, c ≠ '.' ∧ c ≠ ':' := fun c hc => (mem_word h hc).2
  cases hq : d.qualifier
  case none =>
    have hnil : trimStart d.qualification = [] := by simp [qualification, hq, trimStart]
    rw [hnil, List.nil_append, afterQualifiers?_plain hword, Option.getD_none]
  case some q =>
    obtain ⟨text, sep⟩ := q
    have hsep : trimStart d.qualification = trimStart text ++ sep.chars := by
      rw [qualification, hq]
      exact trimStart_append (by cases sep <;> simp [Qualifier.chars] <;> decide)
    have hblank : isBlank (d.word name) = false := by
      obtain ⟨c, cs, hcs⟩ := List.exists_cons_of_ne_nil (word_ne_nil h (d := d))
      have hc := (mem_word h (d := d) (hcs ▸ List.mem_cons_self)).1
      simp [isBlank, hcs, hc]
    rw [hsep, afterQualifiers?_append sep hword hblank, Option.getD_some]

theorem undecorated_decorate : undecorated (d.decorate name) = name := by
  have htrim : trim (d.word name) = d.word name := by
    refine trim_eq_self (fun c hc => ?_) (fun c hc => ?_)
    · exact (mem_word h (List.mem_of_mem_head? hc)).1
    · exact (mem_word h (List.mem_of_getLast? hc)).1
  rw [undecorated, splitParameters_decorate h, getD_afterQualifiers? h, htrim]
  exact withoutSigil_append d.sigil_mem h

end Decoration

-- A title matches a piece of code exactly if its name does, whatever qualifier, sigil and
-- parameters it has.
theorem titleMatches_decorate (d : Decoration) (h : IsName name) (code : List Char) :
    titleMatches (d.decorate name) code = titleMatches name code := by
  have hname : undecorated name = name := by
    rw [← Decoration.decorate_none name, Decoration.undecorated_decorate h,
      Decoration.decorate_none]
  rw [titleMatches, titleMatches, Decoration.undecorated_decorate h, hname]

-- The qualifier and the parameters both hold brackets, separators and sigils.
theorem titleMatches_decorate_template :
    IsName "get_2".toList ∧ titleMatches "get_2".toList "int GET_2(m q);".toList = true ∧
      titleMatches "a.b<$c::(x)>::@get_2  (m<n.o>, %p)".toList "int GET_2(m q);".toList = true := by
  have hinner : Balanced "n.o".toList :=
    .plain (by decide) (by decide) (.plain (by decide) (by decide) (.plain (by decide)
      (by decide) .nil))
  have htail : Balanced ", %p".toList :=
    .plain (by decide) (by decide) (.plain (by decide) (by decide) (.plain (by decide) (by decide)
      (.plain (by decide) (by decide) .nil)))
  let d : Decoration := {
    qualifier := some ("a.b<$c::(x)>".toList, .colons)
    sigil := some '@'
    spaces := 2
    parameters := "(m<n.o>, %p)".toList
    sigil_mem := by simp
    isBlock _ := ⟨⟨'(', "m<n.o>, %p".toList, ')', rfl, .plain (by decide) (by decide)
      (.block rfl hinner htail), by decide⟩, by decide⟩ }
  have hd : d.decorate "get_2".toList = "a.b<$c::(x)>::@get_2  (m<n.o>, %p)".toList := by
    simp [Decoration.decorate, Decoration.qualification, Decoration.word, Qualifier.chars, d]
  have hname : IsName "get_2".toList := ⟨by decide, by simp⟩
  have hmatches : titleMatches "get_2".toList "int GET_2(m q);".toList = true := by decide +kernel
  exact ⟨hname, hmatches, hd ▸ (titleMatches_decorate d hname _).trans hmatches⟩

end SourceDocs.Prototype

import SourceDocs.Proofs.Signature.Mark
import SourceDocs.Proofs.Trim

namespace SourceDocs

namespace PlainWord

theorem intercalate_cons (sep x : List Char) (xs : List (List Char)) :
    sep.intercalate (x :: xs) = x ++ xs.flatMap (sep ++ ·) := by
  induction xs generalizing x
  case nil => simp
  case cons y ys hi => rw [List.intercalate_cons_cons, hi]; simp

def joined (ws : List PlainWord) : List Char :=
  [' '].intercalate (ws.map (·.chars))

theorem joined_cons (w : PlainWord) (ws : List PlainWord) :
    joined (w :: ws) = w.chars ++ ws.flatMap fun v => ' ' :: v.chars := by
  simp [joined, intercalate_cons, List.flatMap_map]

theorem joined_eq_nil {ws : List PlainWord} : joined ws = [] ↔ ws = [] := by
  cases ws
  case nil => simp [joined]
  case cons w ws => simp [joined_cons, w.ne_nil]

theorem trim_joined (ws : List PlainWord) : Text.trim (joined ws) = joined ws := by
  refine Text.trim_eq_self ?head ?last
  case head =>
    cases ws
    case nil => simp [joined]
    case cons w ws =>
      obtain ⟨c, cs, hc⟩ := List.exists_cons_of_ne_nil w.ne_nil
      rw [joined_cons, hc]
      rintro d ⟨rfl⟩
      exact Text.isWhiteSpace_plain (w.plain c (by simp [hc]))
  case last =>
    induction ws
    case nil => simp [joined]
    case cons w ws hi =>
      cases ws
      case nil =>
        intro c hc
        rw [joined_cons, List.flatMap_nil, List.append_nil] at hc
        exact Text.isWhiteSpace_plain (w.plain c (List.mem_of_getLast? hc))
      case cons v ws =>
        have : joined (w :: v :: ws) = w.chars ++ ' ' :: joined (v :: ws) := by
          simp [joined]
        obtain ⟨c, cs, hc⟩ : ∃ c cs, joined (v :: ws) = c :: cs := by
          obtain ⟨c, cs, hc⟩ := List.exists_cons_of_ne_nil v.ne_nil
          exact ⟨c, _, by rw [joined_cons, hc, List.cons_append]⟩
        rw [hc] at hi
        simpa [this, hc, List.getLast?_cons_cons, List.getLast?_append] using hi

end PlainWord

namespace Declaration

open Prototype

section Collect

variable {keep : Role → Bool} {out : List Char} {ms : List Marked} {r : Role}

theorem collect_other (h : ∀ m ∈ ms, m.2.any keep = false) (s : Bool) :
    collect keep out s ms = out := by
  induction ms generalizing s
  case nil => rfl
  case cons m ms hi =>
    have hm := h m (.head _)
    have hi := hi fun n hn => h n (.tail _ hn)
    simp only [collect, hm, hi, Bool.false_eq_true, ↓reduceIte, ite_self]

theorem collect_nil_space (s : Bool) : collect keep [] s ms = collect keep [] false ms := by
  induction ms generalizing s
  case nil => rfl
  case cons m ms hi => simp [collect, appendSpaced, hi true, hi s]

theorem collect_skip {before : List Marked} (h : ∀ m ∈ before, m.2.any keep = false) :
    collect keep [] false (before ++ ms) = collect keep [] false ms := by
  induction before
  case nil => rfl
  case cons m before hi =>
    have hm := h m (.head _)
    have hi := hi fun n hn => h n (.tail _ hn)
    simp [collect, hm, collect_nil_space true, hi]

theorem collect_tagged (hr : keep r = true) (ts : List Token) :
    collect keep out false (tagged (some r) ts ++ ms) =
      collect keep (out ++ ts.flatMap (·.chars)) false ms := by
  induction ts generalizing out
  case nil => simp [tagged]
  case cons t ts hi =>
    simp only [tagged, List.map_cons, List.cons_append, collect, Option.any_some, hr,
      ↓reduceIte, appendSpaced, Bool.false_and, Bool.false_eq_true]
    rw [← tagged, hi]
    simp

-- The kept tokens stand together, so that their text is not broken up.
theorem collect_only {before after : List Marked} (hr : keep r = true) (ts : List Token)
    (hb : ∀ m ∈ before, m.2.any keep = false) (ha : ∀ m ∈ after, m.2.any keep = false) :
    collect keep [] false (before ++ (tagged (some r) ts ++ after)) =
      ts.flatMap (·.chars) := by
  rw [collect_skip hb, collect_tagged hr, collect_other ha, List.nil_append]

end Collect

section CollectType

variable {out : List Char} {ms : List Marked} {r : Role}

-- No part of a type.
def IsForeign (m : Marked) : Prop :=
  m.2.any Role.isOfType = false

theorem IsForeign.not_bracket {m : Marked} (h : IsForeign m) :
    isOpening m.2 = false ∧ isClosing m.2 = false := by
  obtain ⟨t, _ | r⟩ := m
  case none => exact ⟨rfl, rfl⟩
  case some => cases r <;> simp_all [IsForeign, Role.isOfType, isOpening, isClosing]

theorem collectType_foreign (h : ∀ m ∈ ms, IsForeign m) (s : Bool) :
    collectType 0 out s ms = out := by
  induction ms generalizing s
  case nil => rfl
  case cons m ms hi =>
    have hm := h m (.head _)
    have ⟨ho, hc⟩ := hm.not_bracket
    have hi := hi fun n hn => h n (.tail _ hn)
    unfold IsForeign at hm
    simp [collectType, ho, hc, hm, hi]

theorem collectType_tagged (hr : r = .type ∨ r = .modifier) {ts : List Token}
    (ht : ∀ t ∈ ts, t.IsPlain) :
    collectType 0 out false (tagged (some r) ts ++ ms) =
      collectType 0 (out ++ ts.flatMap (·.chars)) false ms := by
  induction ts generalizing out
  case nil => simp [tagged]
  case cons t ts hi =>
    have hk : t.kind ≠ .blank := by
      rcases ht t (.head _) with h | rfl
      · simp [h]
      · simp
    have hi := @hi (out ++ t.chars) fun u hu => ht u (.tail _ hu)
    simp only [tagged, List.append_assoc] at hi
    rcases hr with rfl | rfl <;>
      simp [tagged, collectType, isOpening, isClosing, Role.isOfType, hk, appendSpaced, hi]

theorem collectType_plain (hr : r = .type ∨ r = .modifier) (w : PlainWord) (s : Bool) :
    collectType 0 out s (tagged (some r) w.tokens ++ ms) =
      collectType 0 (appendSpaced out s w.chars) false ms := by
  have hf : w.tokens.flatMap (·.chars) = w.chars := Token.flatMap_chars_scan w.chars
  obtain ⟨t, ts, hw⟩ := List.exists_cons_of_ne_nil w.tokens_ne_nil
  have hp (u : Token) (hu : u ∈ t :: ts) : u.IsPlain := w.isPlain (hw ▸ hu)
  have hk : t.kind ≠ .blank := by
    rcases hp t (.head _) with h | rfl
    · simp [h]
    · simp
  have htail := @collectType_tagged (appendSpaced out s t.chars) ms r hr ts
    fun u hu => hp u (.tail _ hu)
  have hout : appendSpaced out s t.chars ++ ts.flatMap (·.chars) = appendSpaced out s w.chars := by
    rw [← hf, hw]
    simp only [appendSpaced, List.flatMap_cons]
    split <;> simp
  rw [hw, ← hout, ← htail]
  rcases hr with rfl | rfl <;>
    simp [tagged, collectType, isOpening, isClosing, Role.isOfType, hk]

theorem collectType_word (hr : r = .type ∨ r = .modifier) (w : Ident) (s : Bool) :
    collectType 0 out s (tagged (some r) w.tokens ++ ms) =
      collectType 0 (appendSpaced out s w.chars) false ms :=
  collectType_plain hr w.toPlain s

theorem collectType_wordsMarked (h : ∀ m ∈ ms, IsForeign m) (ws : List (Ident × Space))
    (ho : out ≠ []) :
    collectType 0 out true (wordsMarked ws ++ ms) =
      out ++ ws.flatMap fun w => ' ' :: w.1.chars := by
  induction ws generalizing out
  case nil => simpa [wordsMarked] using collectType_foreign h true
  case cons w ws hi =>
    have hr : (if ws.isEmpty then Role.type else .modifier) = .type ∨
        (if ws.isEmpty then Role.type else .modifier) = .modifier := by
      cases ws <;> simp
    rw [wordsMarked, List.append_assoc, collectType_word hr, List.cons_append, collectType]
    simp [isOpening, isClosing, appendSpaced, ho, hi]

def joined (ws : List (Ident × Space)) : List Char :=
  [' '].intercalate (ws.map (·.1.chars))

def typeOf (ws : List (Ident × Space)) : Option (List Char) :=
  if ws = [] then none else some (joined ws)

theorem collectType_words (h : ∀ m ∈ ms, IsForeign m) (ws : List (Ident × Space)) :
    collectType 0 [] false (wordsMarked ws ++ ms) = joined ws := by
  cases ws
  case nil => exact collectType_foreign h false
  case cons w ws =>
    have hr : (if ws.isEmpty then Role.type else .modifier) = .type ∨
        (if ws.isEmpty then Role.type else .modifier) = .modifier := by
      cases ws <;> simp
    rw [wordsMarked, List.append_assoc, collectType_word hr, List.cons_append, collectType]
    simp only [isOpening, isClosing, appendSpaced, Bool.false_and, Bool.false_eq_true]
    simp [collectType_wordsMarked h ws w.1.ne_nil, joined, PlainWord.intercalate_cons,
      List.flatMap_map]

end CollectType

section Accessors

variable {p : Prototype} {d : Declaration} {i stop : Nat} {after : Gap}

theorem role_of_mem_wordsMarked {ws : List (Ident × Space)} {m : Marked}
    (hm : m ∈ wordsMarked ws) : m.2 = none ∨ m.2 = some .type ∨ m.2 = some .modifier := by
  induction ws
  case nil => simp [wordsMarked] at hm
  case cons w ws hi =>
    simp only [wordsMarked, tagged, List.mem_append, List.mem_map, List.mem_cons] at hm
    rcases hm with ⟨t, _, rfl⟩ | rfl | hm
    case inl => cases ws <;> simp
    case inr.inl => exact .inl rfl
    case inr.inr => exact hi hm

theorem role_of_mem_defaultMarked {default? : Option (Gap × Gap × Ident)} {m : Marked}
    (hm : m ∈ defaultMarked default?) :
    m.2 = none ∨ m.2 = some .defaultSeparator ∨ m.2 = some .defaultValue := by
  rcases default? with _ | ⟨before, after, value⟩
  case none => simp [defaultMarked] at hm
  case some =>
    simp only [defaultMarked, tagged, List.mem_append, List.mem_map, List.mem_cons] at hm
    rcases hm with ⟨t, _, rfl⟩ | rfl | ⟨t, _, rfl⟩ | ⟨t, _, rfl⟩ <;> simp

theorem role_of_mem_tagged {role : Option Role} {ts : List Token} {m : Marked}
    (hm : m ∈ tagged role ts) : m.2 = role := by
  obtain ⟨t, _, rfl⟩ := List.mem_map.mp hm
  rfl

-- The declaration stands from `i` to `stop`, with its roles and maybe with blanks after it.
structure Appears (p : Prototype) (d : Declaration) (after : Gap) (i stop : Nat) : Prop where
  shows : Shows p.buffer p.roles i (d.marked ++ tagged none after.tokens)
  stop_eq : stop = i + (d.marked ++ tagged none after.tokens).length

theorem Appears.marked_eq (h : Appears p d after i stop) :
    p.marked i stop = wordsMarked d.words ++
      (tagged (some .name) d.name.tokens ++
        (defaultMarked d.default? ++ tagged none after.tokens)) := by
  rw [h.stop_eq, h.shows.marked_eq]
  simp [marked]

theorem flatMap_chars_tokens (w : Ident) : w.tokens.flatMap (·.chars) = w.chars :=
  Token.flatMap_chars_scan w.chars

theorem Appears.name (h : Appears p d after i stop) :
    p.roleText? .name i stop = some d.name.chars := by
  have hc : collect (· = .name) [] false (p.marked i stop) = d.name.chars := by
    rw [h.marked_eq, collect_only rfl, flatMap_chars_tokens]
    case hb =>
      intro m hm
      rcases role_of_mem_wordsMarked hm with hr | hr | hr <;> simp [hr]
    case ha =>
      intro m hm
      rcases List.mem_append.mp hm with hm | hm
      · rcases role_of_mem_defaultMarked hm with hr | hr | hr <;> simp [hr]
      · simp [role_of_mem_tagged hm]
  obtain ⟨c, cs, hcs⟩ := List.exists_cons_of_ne_nil d.name.ne_nil
  simp [roleText?, hc, hcs]

theorem Appears.default (h : Appears p d after i stop) :
    p.roleText? .defaultValue i stop = d.default?.map (·.2.2.chars) := by
  have hwords (m : Marked) (hm : m ∈ wordsMarked d.words) :
      m.2.any (· = .defaultValue) = false := by
    rcases role_of_mem_wordsMarked hm with hr | hr | hr <;> simp [hr]
  rw [roleText?, h.marked_eq]
  rcases hd : d.default? with _ | ⟨before, gap, value⟩
  case none =>
    rw [collect_other]
    · rfl
    · intro m hm
      simp only [defaultMarked, List.nil_append, List.mem_append] at hm
      rcases hm with hm | hm | hm
      · exact hwords m hm
      · simp [role_of_mem_tagged hm]
      · simp [role_of_mem_tagged hm]
  case some =>
    have hsplit : wordsMarked d.words ++ (tagged (some .name) d.name.tokens ++
        (defaultMarked (some (before, gap, value)) ++ tagged none after.tokens)) =
        wordsMarked d.words ++ (tagged (some .name) d.name.tokens ++ (tagged none before.tokens ++
          ((⟨.symbol, ['=']⟩, some .defaultSeparator) :: tagged none gap.tokens))) ++
          (tagged (some .defaultValue) value.tokens ++ tagged none after.tokens) := by
      simp [defaultMarked]
    have hc : collect (· = .defaultValue) [] false (wordsMarked d.words ++
        (tagged (some .name) d.name.tokens ++
          (defaultMarked (some (before, gap, value)) ++ tagged none after.tokens))) =
          value.chars := by
      rw [hsplit, collect_only rfl, flatMap_chars_tokens]
      case hb =>
        intro m hm
        simp only [List.mem_append, List.mem_cons] at hm
        rcases hm with hm | hm | hm | rfl | hm
        · exact hwords m hm
        · simp [role_of_mem_tagged hm]
        · simp [role_of_mem_tagged hm]
        · simp
        · simp [role_of_mem_tagged hm]
      case ha =>
        intro m hm
        simp [role_of_mem_tagged hm]
    obtain ⟨c, cs, hcs⟩ := List.exists_cons_of_ne_nil value.ne_nil
    simp [hc, hcs]

theorem joined_cons (w : Ident × Space) (ws : List (Ident × Space)) :
    joined (w :: ws) = w.1.chars ++ ws.flatMap fun v => ' ' :: v.1.chars := by
  simp [joined, PlainWord.intercalate_cons, List.flatMap_map]

theorem trim_joined (ws : List (Ident × Space)) : Text.trim (joined ws) = joined ws := by
  have hplain : joined ws = PlainWord.joined (ws.map (·.1.toPlain)) := by
    rw [joined, PlainWord.joined, List.map_map]
    rfl
  rw [hplain, PlainWord.trim_joined]

theorem Appears.type (h : Appears p d after i stop) :
    p.typeText? i stop = typeOf d.words := by
  have hc : collectType 0 [] false (p.marked i stop) = joined d.words := by
    rw [h.marked_eq, collectType_words]
    intro m hm
    simp only [List.mem_append] at hm
    rcases hm with hm | hm | hm
    · simp [IsForeign, role_of_mem_tagged hm, Role.isOfType]
    · rcases role_of_mem_defaultMarked hm with hr | hr | hr <;> simp [IsForeign, hr, Role.isOfType]
    · simp [IsForeign, role_of_mem_tagged hm]
  rw [typeText?, hc, trim_joined]
  cases d.words
  case nil => rfl
  case cons w ws =>
    obtain ⟨c, cs, hc⟩ := List.exists_cons_of_ne_nil w.1.ne_nil
    simp [typeOf, joined_cons, hc]

-- No colon divides a declaration in C style.
theorem Appears.no_separator (h : Appears p d after i stop) {k : Nat} (hk : i ≤ k) (hl : k < stop) :
    p.roles.get k ≠ some .nameTypeSeparator := by
  obtain ⟨m, hm, hr⟩ := h.shows.exists_mem hk (h.stop_eq ▸ hl)
  rw [hr]
  simp only [marked, List.append_assoc, List.mem_append] at hm
  rcases hm with hm | hm | hm | hm
  · rcases role_of_mem_wordsMarked hm with hr | hr | hr <;> simp [hr]
  · simp [role_of_mem_tagged hm]
  · rcases role_of_mem_defaultMarked hm with hr | hr | hr <;> simp [hr]
  · simp [role_of_mem_tagged hm]

theorem Appears.parameter {k : Nat} (h : Appears p d after i stop)
    (hk : p.parameters[k]? = some (i, stop)) :
    p.parameterName? k = some d.name.chars ∧
      p.parameterType? k = typeOf d.words ∧
      p.parameterDefault? k = d.default?.map (·.2.2.chars) := by
  have hcolon : ¬Buffer.seek (p.roles.get · = some .nameTypeSeparator) i stop < stop := by
    intro hlt
    have := Buffer.of_seek_lt hlt
    exact h.no_separator (Buffer.le_seek ..) hlt (by simpa using this)
  refine ⟨?_, ?_, ?_⟩
  · simpa [parameterName?, hk] using h.name
  · simpa [parameterType?, hk, hcolon] using h.type
  · simpa [parameterDefault?, hk] using h.default

end Accessors

end Declaration
end SourceDocs

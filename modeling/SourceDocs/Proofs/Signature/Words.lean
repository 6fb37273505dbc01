import SourceDocs.Proofs.Roles
import SourceDocs.Proofs.Signature.Syntax

namespace SourceDocs

namespace Buffer

def Holds (buf : Buffer) (i : Nat) : List Token → Prop
  | [] => True
  | t :: ts => buf.tokens[i]? = some t ∧ Holds buf (i + 1) ts

variable {buf : Buffer} {i k : Nat} {ts us : List Token} {t : Token}

theorem holds_append :
    buf.Holds i (ts ++ us) ↔ buf.Holds i ts ∧ buf.Holds (i + ts.length) us := by
  induction ts generalizing i
  case nil => simp [Holds]
  case cons t ts hi => simp [Holds, hi, and_assoc, show i + 1 + ts.length = i + (ts.length + 1) by omega]

theorem Holds.token (h : buf.Holds i ts) (hk : i ≤ k) (hl : k < i + ts.length) :
    ∃ t ∈ ts, buf.tokens[k]? = some t := by
  induction ts generalizing i
  case nil => simp at hl; omega
  case cons t ts hi =>
    by_cases he : k = i
    case pos => exact ⟨t, .head _, he ▸ h.1⟩
    case neg =>
      have ⟨u, hu, ht⟩ := hi h.2 (by omega) (by simp at hl; omega)
      exact ⟨u, .tail _ hu, ht⟩

theorem Holds.first (h : buf.Holds i ts) (ht : t ∈ ts.head?) : buf.tokens[i]? = some t := by
  obtain ⟨us, rfl⟩ := List.head?_eq_some_iff.mp ht
  exact h.1

theorem Holds.last (h : buf.Holds i ts) (ht : t ∈ ts.getLast?) :
    buf.tokens[i + ts.length - 1]? = some t := by
  obtain ⟨us, rfl⟩ := List.getLast?_eq_some_iff.mp ht
  rw [List.length_append, List.length_singleton]
  exact (holds_append.mp h).2.1

theorem holds_ofTokens (ts us : List Token) : (ofTokens (ts ++ us)).Holds ts.length us := by
  induction us generalizing ts
  case nil => trivial
  case cons u us hi =>
    refine ⟨by simp [ofTokens], ?_⟩
    have := hi (ts ++ [u])
    simpa using this

theorem holds_ofChars {cs : List Char} (h : Token.scan cs = ts) :
    (ofChars cs).Holds 0 ts ∧ (ofChars cs).size = ts.length := by
  rw [ofChars, h]
  exact ⟨holds_ofTokens [] ts, by simp [ofTokens, size]⟩

theorem isIdentifier_of_plain (ht : buf.tokens[i]? = some t) (hp : t.IsPlain) :
    Prototype.isIdentifier buf i = true := by
  rw [Prototype.isIdentifier, Bool.or_eq_true]
  rcases hp with hp | rfl
  case inl => exact .inl (isText_iff.mpr ⟨t, ht, hp⟩)
  case inr => exact .inr (isChar_iff.mpr ⟨_, ht, rfl, rfl⟩)

theorem eq_of_isChar_plain (ht : buf.tokens[i]? = some t) (hp : t.IsPlain) {c : Char}
    (hc : buf.isChar i c = true) : c = '_' := by
  obtain ⟨u, hu, hk, hh⟩ := isChar_iff.mp hc
  obtain rfl := Option.some.inj (ht.symm.trans hu)
  rcases hp with hp | rfl
  case inl => simp [hp] at hk
  case inr => simpa using hh.symm

theorem symbol?_eq_none_of_isBlank (h : buf.isBlank i = true) : buf.symbol? i = none := by
  obtain ⟨t, ht, hk⟩ := isBlank_iff.mp h
  simp [symbol?, isSymbol, kind?, ht, hk]

theorem isText_eq_false_of_isBlank (h : buf.isBlank i = true) : buf.isText i = false := by
  obtain ⟨t, ht, hk⟩ := isBlank_iff.mp h
  simp [isText, kind?, ht, hk]

theorem isBlank_eq_false (ht : buf.tokens[i]? = some t) (hk : t.kind ≠ .blank) :
    buf.isBlank i = false := by
  simp [isBlank, kind?, ht, hk]

theorem isBlank_eq_false_of_plain (ht : buf.tokens[i]? = some t) (hp : t.IsPlain) :
    buf.isBlank i = false :=
  isBlank_eq_false ht hp.not_blank

theorem not_isChar_plain (ht : buf.tokens[i]? = some t) (hp : t.IsPlain ∨ t.kind = .blank)
    {c : Char} (hc : c ≠ '_') : buf.isChar i c = false := by
  rw [Bool.eq_false_iff]
  intro h
  rcases hp with hp | hp
  case inl => exact hc (eq_of_isChar_plain ht hp h)
  case inr =>
    have := not_isBlank_of_isChar h
    rw [isBlank_iff.mpr ⟨t, ht, hp⟩] at this
    cases this

end Buffer

namespace Skip

structure Uncommented (profile : Profile) (buf : Buffer) : Prop where
  line : ∀ i, ∀ s ∈ profile.lineComments, buf.matchesAt i s = false
  block : ∀ i, ∀ s ∈ profile.blockComments, buf.matchesAt i s.opener = false

namespace Uncommented

variable {profile : Profile} {buf : Buffer} {i : Nat}

theorem quoted?_eq_none (h : Uncommented profile buf)
    (hi : ∀ c ∈ buf.symbol? i, c ≠ '"' ∧ c ≠ '\x27') : quoted? profile buf i = none := by
  have hb : blockSymbols? profile buf i = none :=
    List.find?_eq_none.mpr fun s hs => by simp [h.block i s hs]
  have hl : lineSymbol? profile buf i = none :=
    List.find?_eq_none.mpr fun s hs => by simp [h.line i s hs]
  have hs : string? buf i = none := by
    unfold string?
    split
    case h_1 c hc => exact if_neg (by simpa using hi c hc)
    case h_2 => rfl
  simp [quoted?, comment?, blockComment?, lineComment?, hb, hl, hs]

theorem enclosed?_eq_none_of_symbol (h : Uncommented profile buf)
    (hi : ∀ c ∈ buf.symbol? i, c ∉ "\"\x27".toList ∧ Text.closing? c = none) :
    enclosed? profile buf true i = none := by
  have hq : quoted? profile buf i = none := h.quoted?_eq_none fun c hc => by
    simpa using (hi c hc).1
  have ho : opens? buf true i = none := by
    unfold opens?
    split
    case h_1 c hc => simpa using (hi c hc).2
    case h_2 => rfl
  simp [enclosed?, block?, hq, ho]

theorem enclosed?_eq_none (h : Uncommented profile buf)
    (hi : ∀ c ∈ buf.symbol? i, c = '_' ∨ c = '=' ∨ c = ',') :
    enclosed? profile buf true i = none :=
  h.enclosed?_eq_none_of_symbol fun c hc => by
    rcases hi c hc with rfl | rfl | rfl <;> decide

end Uncommented

variable (profile : Profile) {buf : Buffer} {i j limit : Nat} {ts : List Token}

theorem nameEnd_plain (h : buf.Holds i ts) (hp : ∀ t ∈ ts, t.IsPlain)
    (hl : i + ts.length ≤ limit) :
    nameEnd profile buf limit i = nameEnd profile buf limit (i + ts.length) := by
  induction ts generalizing i
  case nil => rfl
  case cons t ts hi =>
    simp only [List.length_cons] at hl ⊢
    have ht := Buffer.isIdentifier_of_plain h.1 (hp t (.head _))
    have hn : (buf.isText i || isNameSymbol buf i || buf.isChar i '.' || buf.isChar i '?')
        = true := by
      simp only [Prototype.isIdentifier, Bool.or_eq_true, Buffer.isChar, decide_eq_true_eq] at ht
      rcases ht with ht | ht <;> simp [ht, isNameSymbol]
    rw [nameEnd, if_pos (by omega), if_pos hn, hi h.2 (fun u hu => hp u (.tail _ hu)) (by omega)]
    congr 1
    omega

-- A name ends here: nothing that follows before `limit` belongs to it.
inductive Stops (buf : Buffer) (limit j : Nat) : Prop
  | limit (h : j = limit)
  | sign (h : buf.isChar j '=' = true)
  | blank (h : buf.isBlank j = true) (hn : buf.isBlank (j + 1) = false)
    (hs : isTypeSuffix buf (j + 1) = false)

theorem nameEnd_stops (hb : buf.WellFormed) (h : Stops buf limit j) :
    nameEnd profile buf limit j = j := by
  by_cases hj : j < limit
  case neg => rw [nameEnd, if_neg hj]
  case pos =>
    cases h
    case limit h => omega
    case sign h =>
      have ht := Buffer.not_isText_of_isChar h
      have hn := Buffer.not_isBlank_of_isChar h
      simp only [Buffer.isChar, decide_eq_true_eq] at h
      have hblock : block? profile buf false j = none := by
        simp [block?, opens?, h, Text.closing?]
      rw [nameEnd]
      simp [hj, ht, hn, isNameSymbol, Buffer.matchesAt_doubleColon hb, Buffer.isChar, h]
      split
      case h_1 hb => cases hblock.symm.trans hb
      case h_2 => rfl
    case blank h hn hs =>
      have ht := Buffer.isText_eq_false_of_isBlank h
      have hsym := Buffer.symbol?_eq_none_of_isBlank h
      have hblock : block? profile buf false j = none := by
        simp [block?, opens?, hsym]
      have ha : buf.afterBlanks j limit = j + 1 := by
        rw [Buffer.afterBlanks, Buffer.seek, if_pos hj, if_neg (by simp [h]), Buffer.seek]
        simp [hn]
      rw [nameEnd]
      simp [hj, ht, isNameSymbol, Buffer.matchesAt_doubleColon hb, Buffer.isChar, hsym]
      split
      case h_1 hb => cases hblock.symm.trans hb
      case h_2 =>
        rw [if_pos h, ha, afterSuffixes, if_neg (by simp [hs])]

theorem nameEnd_colon (hb : buf.WellFormed) (h : buf.isChar j ':' = true)
    (hn : buf.isChar (j + 1) ':' = false) : nameEnd profile buf limit j = j := by
  by_cases hj : j < limit
  case neg => rw [nameEnd, if_neg hj]
  case pos =>
    have ht := Buffer.not_isText_of_isChar h
    have hblank := Buffer.not_isBlank_of_isChar h
    simp only [Buffer.isChar, decide_eq_true_eq, decide_eq_false_iff_not] at h hn
    have hblock : block? profile buf false j = none := by
      simp [block?, opens?, h, Text.closing?]
    rw [nameEnd]
    simp [hj, ht, hblank, hn, isNameSymbol, Buffer.matchesAt_doubleColon hb, Buffer.isChar, h]
    split
    case h_1 hb => cases hblock.symm.trans hb
    case h_2 => rfl

theorem name?_plain (w : PlainWord) (h : buf.Holds i w.tokens) (hl : i + w.size ≤ limit)
    (hs : nameEnd profile buf limit (i + w.size) = i + w.size) :
    name? profile buf limit i = some (i + w.size) := by
  have hpos := w.size_pos
  have ⟨t, ht, hi⟩ := h.token (Nat.le_refl i) (by rw [PlainWord.size] at hpos; omega)
  have hid := Buffer.isIdentifier_of_plain hi (w.isPlain ht)
  have hn : (buf.isText i || isNameSymbol buf i) = true := by
    simp only [Prototype.isIdentifier, Bool.or_eq_true, Buffer.isChar, decide_eq_true_eq] at hid
    rcases hid with hid | hid <;> simp [hid, isNameSymbol]
  have he : nameEnd profile buf limit (i + 1) = i + w.size := by
    have h₁ := nameEnd_plain profile h (fun t ht => w.isPlain ht) hl
    rw [nameEnd, if_pos (by omega), if_pos (by simp [hn])] at h₁
    rw [h₁]
    exact hs
  rw [name?, if_pos ⟨by omega, hn⟩, he, Nat.min_eq_left hl]

-- A name that begins with `const` goes on with an underscore.
theorem not_isTypeSuffix_ident (w : Ident) (h : buf.Holds i w.tokens) :
    isTypeSuffix buf i = false := by
  have hc := Token.scan_canonical w.chars
  have hf := Token.flatMap_chars_scan w.chars
  change Token.Canonical w.tokens at hc
  change w.tokens.flatMap _ = _ at hf
  obtain ⟨t, ts, hw⟩ := List.exists_cons_of_ne_nil w.tokens_ne_nil
  have hp := w.isPlain (show t ∈ w.tokens by simp [hw])
  rw [hw] at h hc hf
  have hptr : isPointer buf i = false := by
    unfold isPointer
    split
    case h_1 c hs =>
      obtain rfl := Buffer.eq_of_isChar_plain h.1 hp (c := c) (by simp [Buffer.isChar, hs])
      rfl
    case h_2 => rfl
  rw [isTypeSuffix, hptr, Bool.false_or, Bool.and_eq_false_imp]
  intro hconst
  have ht : t.chars = "const".toList := by
    simpa [Buffer.isToken, Buffer.chars, h.1] using And.right (Bool.and_eq_true _ _ |>.mp hconst)
  have hk : t.kind = .text := hp.resolve_right (by rintro rfl; simp at ht)
  cases ts
  case nil => exact absurd (by simpa [ht] using hf.symm) w.ne_const
  case cons u us =>
    have hu := w.isPlain (show u ∈ w.tokens by simp [hw])
    have ha := (List.isChain_cons_cons.mp hc.apart).1.text hk
    obtain rfl := hu.resolve_left ha
    have : buf.isChar (i + 1) '_' = true := Buffer.isChar_iff.mpr ⟨_, h.2.1, rfl, rfl⟩
    simp [this]

end Skip

namespace Word

variable {profile : Profile} {buf : Buffer} {i limit : Nat}

theorem at?_plain (w : PlainWord) (h : buf.Holds i w.tokens) (hl : i + w.size ≤ limit)
    (hs : Skip.nameEnd profile buf limit (i + w.size) = i + w.size) :
    at? profile buf limit i = some ⟨i, i + w.size, false⟩ := by
  simp [at?, Skip.name?_plain profile w h hl hs]

theorem at?_blank (hc : Skip.Uncommented profile buf) (h : buf.isBlank i = true) :
    at? profile buf limit i = none := by
  have hs := Buffer.symbol?_eq_none_of_isBlank h
  have he := hc.enclosed?_eq_none (i := i) (by simp [hs])
  have hn : Skip.name? profile buf limit i = none := by
    simp [Skip.name?, Buffer.isText_eq_false_of_isBlank h, Skip.isNameSymbol, hs]
  simp [at?, hn, he]

end Word

namespace Phrase

variable {profile : Profile} {buf : Buffer} {i limit : Nat}

def places (i : Nat) : List (PlainWord × Space) → PlainWord → List Word
  | [], last => [⟨i, i + last.size, false⟩]
  | w :: ws, last => ⟨i, i + w.1.size, false⟩ :: places (i + w.1.size + 1) ws last

theorem wordTokens_cons (w : PlainWord × Space) (ws : List (PlainWord × Space)) :
    wordTokens (w :: ws) = w.1.tokens ++ ⟨.blank, w.2.chars⟩ :: wordTokens ws := by
  simp [wordTokens, w.2.tokens_eq]

-- A word ends before the next one, if that is not the word `const`.
theorem nameEnd_before (hb : buf.WellFormed) (hblank : buf.isBlank i = true) {v : PlainWord}
    (hc : v.chars ≠ "const".toList) (hv : buf.Holds (i + 1) v.tokens) :
    Skip.nameEnd profile buf limit i = i := by
  have ⟨t, ht, htv⟩ := hv.token (Nat.le_refl _) (Nat.lt_add_of_pos_right v.size_pos)
  exact Skip.nameEnd_stops profile hb <| .blank hblank
    (Buffer.isBlank_eq_false_of_plain htv (v.isPlain ht))
    (Skip.not_isTypeSuffix_ident ⟨v.chars, v.ne_nil, v.plain, hc⟩ hv)

theorem read_words (hb : buf.WellFormed) (hc : Skip.Uncommented profile buf) {halt : Nat → Bool}
    {ws : List (PlainWord × Space)} {last : PlainWord} {stop : Nat}
    (hconst : ∀ w ∈ (ws.map Prod.fst ++ [last]).tail, w.chars ≠ "const".toList)
    (h : buf.Holds i (wordTokens ws ++ last.tokens))
    (hstop : stop = i + (wordTokens ws ++ last.tokens).length)
    (hh : ∀ k, i ≤ k → k < stop → halt k = false) (hl : stop ≤ limit)
    (hs : Skip.nameEnd profile buf limit stop = stop) :
    Word.read profile buf halt limit i =
      (places i ws last ++ (Word.read profile buf halt limit stop).1,
        (Word.read profile buf halt limit stop).2) := by
  induction ws generalizing i
  case nil =>
    have hpos := last.size_pos
    obtain rfl : stop = i + last.size := hstop
    exact Word.read_word (by omega) (hh i (by omega) (by omega)) (Word.at?_plain last h hl hs)
  case cons w ws hi =>
    have hpos := w.1.size_pos
    rw [wordTokens_cons, List.append_assoc, List.cons_append, Buffer.holds_append] at h
    simp only [wordTokens_cons, List.append_assoc, List.length_append, List.cons_append,
      List.length_cons] at hstop hi
    obtain ⟨hw, hblank, hrest⟩ := h
    change buf.tokens[i + w.1.size]? = _ at hblank
    change buf.Holds (i + w.1.size + 1) _ at hrest
    change stop = i + (w.1.size + _) at hstop
    have hisBlank : buf.isBlank (i + w.1.size) = true := Buffer.isBlank_iff.mpr ⟨_, hblank, rfl⟩
    have ⟨v, hconst', hv⟩ : ∃ v : PlainWord,
        v.chars ≠ "const".toList ∧ buf.Holds (i + w.1.size + 1) v.tokens := by
      cases ws
      case nil => exact ⟨last, hconst last (by simp), hrest⟩
      case cons v ws =>
        rw [wordTokens_cons, List.append_assoc, Buffer.holds_append] at hrest
        exact ⟨v.1, hconst v.1 (by simp), hrest.1⟩
    rw [Word.read_word (by omega) (hh i (by omega) (by omega))
      (Word.at?_plain w.1 hw (by omega) (nameEnd_before hb hisBlank hconst' hv))]
    dsimp only
    rw [Word.read_other (by omega) (hh _ (by omega) (by omega)) (Word.at?_blank hc hisBlank),
      hi (fun u hu => hconst u (List.mem_of_mem_tail hu)) hrest (by omega)
        (fun k hk => hh k (by omega))]
    rfl

end Phrase

namespace Declaration

variable {profile : Profile} {buf : Buffer} {i limit : Nat}

def places (i : Nat) : List (Ident × Space) → Ident → List Word
  | [], name => [⟨i, i + name.size, false⟩]
  | w :: ws, name => ⟨i, i + w.1.size, false⟩ :: places (i + w.1.size + 1) ws name

theorem wordTokens_cons (w : Ident × Space) (ws : List (Ident × Space)) :
    wordTokens (w :: ws) = w.1.tokens ++ ⟨.blank, w.2.chars⟩ :: wordTokens ws := by
  simp [wordTokens, w.2.tokens_eq]

theorem places_plainWords (i : Nat) (ws : List (Ident × Space)) (name : Ident) :
    Phrase.places i (plainWords ws) name.toPlain = places i ws name := by
  induction ws generalizing i
  case nil => rfl
  case cons w ws hi => exact congrArg (_ :: ·) (hi _)

theorem read_words (hb : buf.WellFormed) (hc : Skip.Uncommented profile buf) {halt : Nat → Bool}
    {ws : List (Ident × Space)} {name : Ident} {stop : Nat}
    (h : buf.Holds i (wordTokens ws ++ name.tokens))
    (hstop : stop = i + (wordTokens ws ++ name.tokens).length)
    (hh : ∀ k, i ≤ k → k < stop → halt k = false) (hl : stop ≤ limit)
    (hs : Skip.Stops buf limit stop) :
    Word.read profile buf halt limit i =
      (places i ws name ++ (Word.read profile buf halt limit stop).1,
        (Word.read profile buf halt limit stop).2) := by
  rw [← wordTokens_plainWords] at h hstop
  rw [Phrase.read_words hb hc (fun _ => ne_const_plainWords) h hstop hh hl
    (Skip.nameEnd_stops profile hb hs), places_plainWords]

end Declaration
end SourceDocs

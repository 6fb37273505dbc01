import SourceDocs.Buffer
import SourceDocs.Proofs.Token

namespace SourceDocs

theorem length_le_utf8ByteSize (s : String) : s.toList.length ≤ s.utf8ByteSize := by
  rw [← String.size_toByteArray, ← String.utf8Encode_toList]
  induction s.toList
  case nil => simp
  case cons c cs hi =>
    have := c.utf8Size_pos
    rw [List.utf8Encode_cons, ByteArray.size_append, List.utf8Encode_singleton]
    simp
    omega

theorem utf8ByteSize_eq_length {s : String} (h : ∀ c ∈ s.toList, c.toNat < 0x80) :
    s.utf8ByteSize = s.toList.length := by
  rw [← String.size_toByteArray, ← String.utf8Encode_toList]
  revert h
  induction s.toList
  case nil => simp
  case cons c cs hi =>
    intro h
    have hc : c.utf8Size = 1 := by
      have hlt : c.val.toNat < 0x80 := h c (.head _)
      rw [Char.utf8Size, if_pos]
      exact Nat.le_of_lt_succ hlt
    rw [List.utf8Encode_cons, ByteArray.size_append, List.utf8Encode_singleton,
      hi fun d hd => h d (.tail _ hd)]
    simp [hc]
    omega

theorem ascii_of_symbol {c : Char} (h : Token.Kind.ofChar c = .symbol) : c.toNat < 0x80 := by
  unfold Token.Kind.ofChar at h
  split at h
  case isTrue => cases h
  case isFalse hn =>
    simp only [Bool.or_eq_true, decide_eq_true_eq, not_or] at hn
    omega

namespace Buffer

variable (buf : Buffer)

-- Every token has the form that its kind asks for.
def WellFormed : Prop :=
  ∀ t ∈ buf.tokens, t.WellFormed

theorem wellFormed_ofChars (cs : List Char) : (ofChars cs).WellFormed := fun t ht =>
  Token.scan_canonical cs |>.wellFormed t (by simpa [ofChars, ofTokens] using ht)

-- A part of a text has the tokens that stand there in the whole text.
theorem tokens_ofChars_slice (cs : List Char) (i j : Nat) :
    (ofChars ((ofChars cs).slice i j)).tokens = (ofChars cs).tokens.extract i j := by
  have h : Token.Canonical ((ofChars cs).tokens.extract i j).toList := by
    rw [Array.toList_extract]
    refine (Token.scan_canonical cs).of_isInfix ?_
    exact (List.take_prefix ..).isInfix.trans (List.drop_suffix ..).isInfix
  unfold slice
  rw [ofChars, Token.scan_flatMap_chars h, ofTokens]

theorem size_ofChars_slice (cs : List Char) (i : Nat) {j : Nat} (hj : j ≤ (ofChars cs).size) :
    (ofChars ((ofChars cs).slice i j)).size = j - i := by
  rw [size, tokens_ofChars_slice, Array.size_extract]
  exact congrArg (· - i) (Nat.min_eq_left hj)

def spells (i : Nat) : List Char → Bool
  | [] => true
  | c :: cs => buf.isChar i c && spells (i + 1) cs

variable {buf} {i j : Nat} {c d : Char}

theorem isChar_iff : buf.isChar i c = true ↔
    ∃ t, buf.tokens[i]? = some t ∧ t.kind = .symbol ∧ t.chars.head? = some c := by
  rcases h : buf.tokens[i]? with _ | t <;> simp [isChar, symbol?, isSymbol, kind?, chars, h]

theorem isBlank_iff : buf.isBlank i = true ↔
    ∃ t, buf.tokens[i]? = some t ∧ t.kind = .blank := by
  simp [isBlank, kind?]

theorem isText_iff : buf.isText i = true ↔ ∃ t, buf.tokens[i]? = some t ∧ t.kind = .text := by
  simp [isText, kind?]

theorem lt_size_of_token {t : Token} (h : buf.tokens[i]? = some t) : i < buf.size :=
  (Array.getElem?_eq_some_iff.mp h).1

theorem eq_of_isChar (hc : buf.isChar i c = true) (hd : buf.isChar i d = true) : c = d := by
  simp only [isChar, decide_eq_true_eq] at hc hd
  exact Option.some.inj (hc.symm.trans hd)

theorem not_isBlank_of_isChar (h : buf.isChar i c = true) : buf.isBlank i = false := by
  obtain ⟨t, ht, hk, -⟩ := isChar_iff.mp h
  simp [isBlank, kind?, ht, hk]

theorem not_isLineBreak_of_isChar (h : buf.isChar i c = true) : buf.isLineBreak i = false := by
  obtain ⟨t, ht, hk, -⟩ := isChar_iff.mp h
  simp [isLineBreak, kind?, ht, hk]

theorem not_isText_of_isChar (h : buf.isChar i c = true) : buf.isText i = false := by
  obtain ⟨t, ht, hk, -⟩ := isChar_iff.mp h
  simp [isText, kind?, ht, hk]

theorem lt_size_of_spells {cs : List Char} (h : buf.spells i cs = true) (hcs : cs ≠ []) :
    i + cs.length ≤ buf.size := by
  induction cs generalizing i
  case nil => simp at hcs
  case cons c cs hi =>
    simp only [spells, Bool.and_eq_true] at h
    cases cs
    case nil => exact buf.lt_size_of_isChar h.1
    case cons =>
      have := hi h.2 (by simp)
      simp only [List.length_cons] at this ⊢
      omega

theorem length_dropLead? {ignoreCase : Bool} {cs literal rest : List Char}
    (h : dropLead? ignoreCase cs literal = some rest) :
    literal.length = cs.length + rest.length := by
  fun_induction dropLead? ignoreCase cs literal
  case case1 =>
    cases h
    simp
  case case2 => cases h
  case case3 ih =>
    have := ih h
    simp only [List.length_cons]
    omega
  case case4 => cases h

-- The tokens that a literal covers are those of its characters.
theorem afterChars_of_cover? {ignoreCase : Bool} {literal : List Char} {n : Nat}
    (h : buf.cover? ignoreCase i literal = some n) : buf.afterChars i literal.length = i + n := by
  fun_induction cover? buf ignoreCase i literal generalizing n
  case case1 =>
    cases h
    rw [List.length_nil, afterChars, if_neg (by omega), Nat.add_zero]
  case case2 i literal hl hi ih =>
    simp only [bind, Option.bind_eq_some_iff] at h
    obtain ⟨rest, hrest, m, hm, hn⟩ := h
    have hlen := length_dropLead? hrest
    have hpos := List.length_pos_iff.mpr hl
    cases hn
    rw [afterChars, if_pos ⟨hi, hpos⟩, show literal.length - (buf.chars i).length = rest.length by omega,
      ih rest hm]
    omega
  case case3 => cases h

theorem afterChars_of_skip? {ignoreCase : Bool} {s : String} (hs : ∀ c ∈ s.toList, c.toNat < 0x80)
    (h : buf.skip? i s ignoreCase = some j) : buf.afterChars i s.utf8ByteSize = j := by
  obtain ⟨n, hn, rfl⟩ := Option.map_eq_some_iff.mp h
  rw [matchLength?, if_neg (buf.ne_nil_of_matchLength? hn)] at hn
  rw [utf8ByteSize_eq_length hs]
  exact afterChars_of_cover? hn

-- A token of symbols is one character long.
theorem WellFormed.add_length_le_afterChars (hb : buf.WellFormed) {cs : List Char} {m : Nat}
    (h : buf.spells i cs = true) (hm : cs.length ≤ m) : i + cs.length ≤ buf.afterChars i m := by
  induction cs generalizing i m
  case nil => exact buf.le_afterChars i m
  case cons c cs hi =>
    simp only [spells, Bool.and_eq_true] at h
    simp only [List.length_cons] at hm ⊢
    obtain ⟨t, ht, hk, -⟩ := isChar_iff.mp h.1
    have hw := hb t (Array.mem_of_getElem? ht)
    simp only [Token.WellFormed, hk] at hw
    obtain ⟨d, -, hd⟩ := hw
    have hlen : (buf.chars i).length = 1 := by simp [chars, ht, hd]
    have := @hi (i + 1) (m - 1) h.2 (by omega)
    rw [afterChars, if_pos ⟨buf.lt_size_of_isChar h.1, by omega⟩, hlen]
    omega

theorem mem_of_isChar {cs : List Char} (h : (ofChars cs).isChar i c = true) : c ∈ cs := by
  obtain ⟨t, ht, -, hc⟩ := isChar_iff.mp h
  have ht : t ∈ Token.scan cs := by
    simpa [ofChars, ofTokens] using Array.mem_of_getElem? ht
  exact Token.mem_chars_of_mem_scan ht (List.mem_of_mem_head? hc)

theorem seek_hit {p : Nat → Bool} (hi : i < j) (hp : p i = true) : seek p i j = i := by
  rw [seek, if_pos hi, if_pos hp]

theorem seek_miss {p : Nat → Bool} (hi : i < j) (hp : p i = false) :
    seek p i j = seek p (i + 1) j := by
  rw [seek, if_pos hi, if_neg (by simp [hp])]

theorem seek_end {p : Nat → Bool} (hi : j ≤ i) : seek p i j = i := by
  rw [seek, if_neg (by omega)]

theorem of_seek_lt {p : Nat → Bool} (h : seek p i j < j) : p (seek p i j) = true := by
  fun_induction seek p i j
  case case1 hp => exact hp
  case case2 hi => exact hi h
  case case3 hi => exact absurd h hi

theorem not_of_lt_seek {p : Nat → Bool} {k stop : Nat} (hi : i ≤ k) (hk : k < seek p i stop) : p k = false := by
  fun_induction seek p i stop
  case case1 => omega
  case case2 i _ hn ih =>
    rcases Nat.lt_or_eq_of_le hi with hlt | rfl
    case inl => exact ih hlt hk
    case inr => simpa using hn
  case case3 => omega

theorem isBlank_of_lt_afterBlanks {k stop : Nat} (hi : i ≤ k) (hk : k < buf.afterBlanks i stop) :
    buf.isBlank k = true := by
  simpa using not_of_lt_seek hi hk

theorem not_isBlank_afterBlanks {stop : Nat} (h : buf.afterBlanks i stop < stop) :
    buf.isBlank (buf.afterBlanks i stop) = false := by
  have := of_seek_lt (p := (!buf.isBlank ·)) h
  exact Bool.not_eq_true' _ ▸ this

-- A search may start later if it would find nothing before.
theorem seek_from {p : Nat → Bool} {stop : Nat} (hn : ∀ k, i ≤ k → k < j → p k = false) (hij : i ≤ j) (hj : j ≤ stop) :
    seek p i stop = seek p j stop := by
  obtain ⟨n, rfl⟩ := Nat.exists_eq_add_of_le hij
  induction n generalizing i
  case zero => rfl
  case succ n hi =>
    rw [seek_miss (by omega) (hn i (Nat.le_refl _) (by omega)),
      hi (fun k hk hk' => hn k (by omega) (by omega)) (by omega) (by omega)]
    congr 1
    omega

theorem seek_le_of_hit {p : Nat → Bool} {k stop : Nat} (hi : i ≤ k) (hp : p k = true) : seek p i stop ≤ k := by
  by_contra hlt
  simp [not_of_lt_seek hi (Nat.lt_of_not_le hlt)] at hp

theorem of_retreat_le {p : Nat → Bool} {k : Nat} (h : retreat p i j ≤ k) (hk : k < j) :
    p k = true := by
  fun_induction retreat p i j
  case case1 => omega
  case case2 j hj hi =>
    by_cases hkj : k < j
    case pos => exact hi h hkj
    case neg => exact (show k = j by omega) ▸ hj.2
  case case3 => omega

theorem not_of_lt_retreat {p : Nat → Bool} (h : i < retreat p i j) :
    p (retreat p i j - 1) = false := by
  fun_induction retreat p i j
  case case1 => omega
  case case2 hi => exact hi h
  case case3 j hj => simpa [h] using hj

-- The walk back comes to the only place before which there is nothing more to pass.
theorem retreat_eq {p : Nat → Bool} {k : Nat} (hik : i ≤ k) (hkj : k ≤ j)
    (hp : ∀ m, k ≤ m → m < j → p m = true) (hn : i < k → p (k - 1) = false) :
    retreat p i j = k := by
  refine Nat.le_antisymm (Nat.le_of_not_lt fun hlt => ?le) (Nat.le_of_not_lt fun hlt => ?ge)
  case le =>
    have hle := retreat_le p i j
    have hstop := not_of_lt_retreat (hik.trans_lt hlt)
    simp [hp (retreat p i j - 1) (by omega) (by omega)] at hstop
  case ge =>
    have hle := le_retreat p (hik.trans hkj)
    have hstop : p (k - 1) = true := of_retreat_le (i := i) (j := j) (by omega) (by omega)
    simp [hn (by omega)] at hstop

theorem WellFormed.token (h : buf.WellFormed) {t : Token} (ht : buf.tokens[i]? = some t) :
    t.WellFormed :=
  h t (Array.mem_of_getElem? ht)

theorem dropLead?_eq_some {cs literal rest : List Char} :
    dropLead? false cs literal = some rest ↔ literal = cs ++ rest := by
  induction cs generalizing literal
  case nil => simp [dropLead?]
  case cons c cs hi =>
    cases literal
    case nil => simp [dropLead?]
    case cons d literal =>
      by_cases h : c = d
      case pos => simp [dropLead?, h, hi]
      case neg => simp [dropLead?, h, Ne.symm h]

theorem cover?_symbols (h : buf.WellFormed) {cs : List Char}
    (hcs : ∀ c ∈ cs, Token.Kind.ofChar c = .symbol) :
    buf.cover? false i cs = if buf.spells i cs then some cs.length else none := by
  induction cs generalizing i
  case nil => simp [cover?, spells]
  case cons c cs hi =>
    have hi := @hi (i + 1) fun d hd => hcs d (.tail _ hd)
    rw [cover?, if_neg (by simp)]
    cases hc : buf.isChar i c
    case true =>
      have hlt := buf.lt_size_of_isChar hc
      obtain ⟨t, ht, hk, hd⟩ := isChar_iff.mp hc
      have hw := h.token ht
      simp only [Token.WellFormed, hk] at hw
      obtain ⟨d, -, hd'⟩ := hw
      obtain rfl : d = c := by simpa [hd'] using hd
      have hl : dropLead? false (buf.chars i) (d :: cs) = some cs := by
        simp [dropLead?_eq_some, chars, ht, hd']
      rw [if_pos hlt, hl]
      simp only [bind, Option.bind_some, hi, spells, hc, Bool.true_and]
      split <;> simp
    case false =>
      simp only [spells, hc, Bool.false_and, Bool.false_eq_true, ↓reduceIte]
      split
      case isFalse => rfl
      case isTrue hlt =>
        -- The token starts with another character, or the literal would stand here.
        have hl : dropLead? false (buf.chars i) (c :: cs) = none := by
          rw [Option.eq_none_iff_forall_not_mem]
          intro rest hr
          rw [Option.mem_def, dropLead?_eq_some] at hr
          obtain ⟨t, ht⟩ : ∃ t, buf.tokens[i]? = some t := ⟨_, Array.getElem?_eq_getElem hlt⟩
          obtain ⟨d, ds, hd, hk⟩ := (h.token ht).ofChar_head
          simp only [chars, ht, Option.map_some, Option.getD_some, hd, List.cons_append,
            List.cons.injEq] at hr
          obtain ⟨rfl, -⟩ := hr
          have : buf.isChar i c = true := isChar_iff.mpr
            ⟨t, ht, hk ▸ hcs c (.head _), by simp [hd]⟩
          simp [this] at hc
        rw [hl]
        rfl

theorem matchLength?_symbols (h : buf.WellFormed) {s : String}
    (hs : ∀ c ∈ s.toList, Token.Kind.ofChar c = .symbol) :
    buf.matchLength? i s false =
      if s.toList ≠ [] ∧ buf.spells i s.toList then some s.toList.length else none := by
  rw [matchLength?, cover?_symbols h hs]
  by_cases hn : s.toList = [] <;> simp [hn]

theorem matchesAt_symbols (h : buf.WellFormed) {s : String}
    (hs : ∀ c ∈ s.toList, Token.Kind.ofChar c = .symbol) :
    buf.matchesAt i s = (!s.toList.isEmpty && buf.spells i s.toList) := by
  rw [matchesAt, matchLength?_symbols h hs]
  cases hn : s.toList <;> simp
  split <;> simp_all

theorem matchesAt_doubleColon (h : buf.WellFormed) :
    buf.matchesAt i "::" = (buf.isChar i ':' && buf.isChar (i + 1) ':') := by
  rw [matchesAt_symbols h (by decide)]
  simp [spells]

theorem matchesAt_assign (h : buf.WellFormed) :
    buf.matchesAt i ":=" = (buf.isChar i ':' && buf.isChar (i + 1) '=') := by
  rw [matchesAt_symbols h (by decide)]
  simp [spells]

end Buffer
end SourceDocs

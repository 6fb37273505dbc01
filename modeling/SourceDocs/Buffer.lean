import SourceDocs.Token

namespace SourceDocs

def Buffer.lineStartsFrom (i : Nat) : List Token → List Nat
  | [] => []
  | t :: ts =>
    if t.kind = .lineBreak then (i + 1) :: lineStartsFrom (i + 1) ts else lineStartsFrom (i + 1) ts

-- A text cut into tokens, with the table of its lines. A position is the index of a token, and
-- `size` is the position after the last one. Past the end there is no kind and no text.
structure Buffer where
  tokens : Array Token
  lineStarts : Array Nat
  lineStarts_eq : lineStarts = (0 :: Buffer.lineStartsFrom 0 tokens.toList).toArray

namespace Buffer

def ofTokens (tokens : List Token) : Buffer where
  tokens := tokens.toArray
  lineStarts := (0 :: lineStartsFrom 0 tokens).toArray
  lineStarts_eq := by simp

def ofChars (cs : List Char) : Buffer :=
  ofTokens (Token.scan cs)

def ofString (s : String) : Buffer :=
  ofChars s.toList

variable (buf : Buffer)

def size : Nat :=
  buf.tokens.size

def text : List Char :=
  buf.tokens.toList.flatMap (·.chars)

-- A line break at the end of the text opens one more, empty line.
def lineCount : Nat :=
  buf.lineStarts.size

def lineStart (line : Nat) : Nat :=
  match line with
  | 0 => buf.size
  | i + 1 => buf.lineStarts[i]?.getD buf.size

-- Position after a line and its line break.
def lineEnd (line : Nat) : Nat :=
  buf.lineStart (line + 1)

def lineOf (i : Nat) : Nat :=
  max 1 (buf.lineStarts.toList.countP (· ≤ i))

def kind? (i : Nat) : Option Token.Kind :=
  buf.tokens[i]?.map (·.kind)

def chars (i : Nat) : List Char :=
  (buf.tokens[i]?.map (·.chars)).getD []

def isText (i : Nat) : Bool :=
  buf.kind? i = some .text

def isBlank (i : Nat) : Bool :=
  buf.kind? i = some .blank

def isLineBreak (i : Nat) : Bool :=
  buf.kind? i = some .lineBreak

def isSymbol (i : Nat) : Bool :=
  buf.kind? i = some .symbol

def symbol? (i : Nat) : Option Char :=
  if buf.isSymbol i then (buf.chars i).head? else none

def isChar (i : Nat) (c : Char) : Bool :=
  buf.symbol? i = some c

def isToken (i : Nat) (s : String) : Bool :=
  i < buf.size && buf.chars i == s.toList

def slice (i j : Nat) : List Char :=
  (buf.tokens.extract i j).toList.flatMap (·.chars)

def dropLead? (ignoreCase : Bool) : (cs literal : List Char) → Option (List Char)
  | [], literal => some literal
  | _ :: _, [] => none
  | c :: cs, d :: literal =>
    if c = d ∨ (ignoreCase ∧ c.toLower = d.toLower) then dropLead? ignoreCase cs literal else none

-- The number of tokens from `i` on whose texts together are `literal`.
def cover? (ignoreCase : Bool) (i : Nat) (literal : List Char) : Option Nat :=
  if literal = [] then
    some 0
  else if i < buf.size then do
    let rest ← dropLead? ignoreCase (buf.chars i) literal
    let n ← cover? ignoreCase (i + 1) rest
    return n + 1
  else
    none
termination_by buf.size - i

-- A literal may span several tokens, but ends only where a token ends. The empty literal is
-- nowhere.
def matchLength? (i : Nat) (literal : String) (ignoreCase : Bool) : Option Nat :=
  if literal.toList = [] then none else buf.cover? ignoreCase i literal.toList

def skip? (i : Nat) (literal : String) (ignoreCase : Bool) : Option Nat :=
  (buf.matchLength? i literal ignoreCase).map (i + ·)

def matchesAt (i : Nat) (literal : String) : Bool :=
  (buf.matchLength? i literal false).isSome

def afterChars (i n : Nat) : Nat :=
  if i < buf.size ∧ 0 < n then afterChars (i + 1) (n - (buf.chars i).length) else i
termination_by buf.size - i

-- The first position from `i` on, and before `stop`, at which `p` holds; otherwise `stop`. A search
-- that starts at or after `stop` stays where it is.
def seek (p : Nat → Bool) (i stop : Nat) : Nat :=
  if i < stop then
    if p i then i else seek p (i + 1) stop
  else
    i
termination_by stop - i

def afterBlanks (i limit : Nat) : Nat :=
  seek (!buf.isBlank ·) i limit

-- `j` moved back over the positions before it at which `p` holds, but not before `start`.
def retreat (p : Nat → Bool) (start : Nat) : (j : Nat) → Nat
  | 0 => 0
  | j + 1 => if start < j + 1 ∧ p j then retreat p start j else j + 1

def beforeBlanks (start j : Nat) : Nat :=
  retreat buf.isBlank start j

def lastNonBlank : (i : Nat) → Nat
  | 0 => 0
  | i + 1 => if buf.isBlank (i + 1) then lastNonBlank i else i + 1

theorem le_seek (p : Nat → Bool) (i stop : Nat) : i ≤ seek p i stop := by
  fun_induction seek p i stop <;> omega

theorem seek_le (p : Nat → Bool) {i stop : Nat} (h : i ≤ stop) : seek p i stop ≤ stop := by
  fun_induction seek p i stop <;> omega

theorem le_afterBlanks (i limit : Nat) : i ≤ buf.afterBlanks i limit :=
  le_seek ..

theorem afterBlanks_le {i limit : Nat} (h : i ≤ limit) : buf.afterBlanks i limit ≤ limit :=
  seek_le _ h

theorem retreat_le (p : Nat → Bool) (start j : Nat) : retreat p start j ≤ j := by
  fun_induction retreat p start j <;> omega

theorem le_retreat (p : Nat → Bool) {start j : Nat} (h : start ≤ j) :
    start ≤ retreat p start j := by
  fun_induction retreat p start j <;> omega

theorem beforeBlanks_le (start j : Nat) : buf.beforeBlanks start j ≤ j :=
  retreat_le ..

theorem le_beforeBlanks {start j : Nat} (h : start ≤ j) : start ≤ buf.beforeBlanks start j :=
  le_retreat _ h

theorem le_afterChars (i n : Nat) : i ≤ buf.afterChars i n := by
  fun_induction afterChars buf i n <;> omega

theorem afterChars_le {i n : Nat} (h : i ≤ buf.size) : buf.afterChars i n ≤ buf.size := by
  fun_induction afterChars buf i n <;> omega

theorem lt_afterChars {i n : Nat} (hi : i < buf.size) (hn : 0 < n) : i < buf.afterChars i n := by
  rw [afterChars, if_pos ⟨hi, hn⟩]
  exact le_afterChars buf (i + 1) _

theorem lt_size_of_kind? {i : Nat} {k : Token.Kind} (h : buf.kind? i = some k) : i < buf.size := by
  simp only [kind?, Option.map_eq_some_iff] at h
  obtain ⟨t, ht, _⟩ := h
  exact (Array.getElem?_eq_some_iff.1 ht).1

theorem lt_size_of_isChar {i : Nat} {c : Char} (h : buf.isChar i c = true) : i < buf.size := by
  simp only [isChar, symbol?, isSymbol, decide_eq_true_eq] at h
  split at h
  case isTrue hk => exact lt_size_of_kind? buf hk
  case isFalse => simp at h

theorem add_cover?_le {ignoreCase : Bool} {i n : Nat} {literal : List Char}
    (hi : i ≤ buf.size) (h : buf.cover? ignoreCase i literal = some n) : i + n ≤ buf.size := by
  fun_induction cover? buf ignoreCase i literal generalizing n with
  | case1 => simp at h; omega
  | case2 i literal hl hlt ih =>
    simp only [bind, Option.bind_eq_some_iff] at h
    obtain ⟨rest, _, m, hm, hn⟩ := h
    have := ih rest (by omega) hm
    simp at hn
    omega
  | case3 => simp at h

theorem cover?_pos {ignoreCase : Bool} {i n : Nat} {literal : List Char} (hl : literal ≠ [])
    (h : buf.cover? ignoreCase i literal = some n) : 0 < n := by
  rw [cover?, if_neg hl] at h
  split at h
  case isTrue =>
    simp only [bind, Option.bind_eq_some_iff] at h
    obtain ⟨_, _, m, _, hn⟩ := h
    simp at hn
    omega
  case isFalse => simp at h

theorem ne_nil_of_matchLength? {i n : Nat} {literal : String} {ignoreCase : Bool}
    (h : buf.matchLength? i literal ignoreCase = some n) : literal.toList ≠ [] := by
  intro hl
  simp [matchLength?, hl] at h

theorem matchLength?_pos {i n : Nat} {literal : String} {ignoreCase : Bool}
    (h : buf.matchLength? i literal ignoreCase = some n) : 0 < n := by
  have hl := ne_nil_of_matchLength? buf h
  rw [matchLength?, if_neg hl] at h
  exact cover?_pos buf hl h

theorem lt_size_of_matchLength? {i n : Nat} {literal : String} {ignoreCase : Bool}
    (h : buf.matchLength? i literal ignoreCase = some n) : i < buf.size := by
  have hl := ne_nil_of_matchLength? buf h
  rw [matchLength?, if_neg hl, cover?, if_neg hl] at h
  split at h
  case isTrue hi => exact hi
  case isFalse => simp at h

theorem lt_skip? {i j : Nat} {literal : String} {ignoreCase : Bool}
    (h : buf.skip? i literal ignoreCase = some j) : i < j := by
  simp only [skip?, Option.map_eq_some_iff] at h
  obtain ⟨n, hn, rfl⟩ := h
  have := matchLength?_pos buf hn
  omega

theorem skip?_le {i j : Nat} {literal : String} {ignoreCase : Bool}
    (h : buf.skip? i literal ignoreCase = some j) : j ≤ buf.size := by
  simp only [skip?, Option.map_eq_some_iff] at h
  obtain ⟨n, hn, rfl⟩ := h
  have hi := lt_size_of_matchLength? buf hn
  have hl := ne_nil_of_matchLength? buf hn
  rw [matchLength?, if_neg hl] at hn
  exact add_cover?_le buf (by omega) hn

end Buffer
end SourceDocs

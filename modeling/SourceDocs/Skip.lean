import SourceDocs.Buffer
import SourceDocs.Profile.Basic
import SourceDocs.Text.Bracket

namespace SourceDocs.Skip

-- Each skip takes the position where a construct may start and gives the position after it, or
-- nothing if there is none. A construct that is never closed runs to the end of the text and still
-- counts.
variable (profile : Profile) (buf : Buffer)

def lineSymbol? (i : Nat) : Option String :=
  profile.lineComments.find? (buf.matchesAt i)

def lineComment? (i : Nat) : Option Nat :=
  (lineSymbol? profile buf i).map fun s =>
    Buffer.seek buf.isLineBreak (buf.afterChars i s.utf8ByteSize) buf.size

def blockSymbols? (i : Nat) : Option BlockSymbols :=
  profile.blockComments.find? (buf.matchesAt i ·.opener)

theorem lt_afterChars_of_matchesAt {i : Nat} {s : String} (h : buf.matchesAt i s = true) :
    i < buf.afterChars i s.utf8ByteSize := by
  obtain ⟨n, hn⟩ := Option.isSome_iff_exists.1 h
  apply buf.lt_afterChars (buf.lt_size_of_matchLength? hn)
  have hs := buf.ne_nil_of_matchLength? hn
  rw [Nat.pos_iff_ne_zero]
  intro hz
  simp only [String.utf8ByteSize_eq_zero_iff] at hz
  simp [hz] at hs

theorem lt_size_of_matchesAt {i : Nat} {s : String} (h : buf.matchesAt i s = true) :
    i < buf.size := by
  obtain ⟨n, hn⟩ := Option.isSome_iff_exists.1 h
  exact buf.lt_size_of_matchLength? hn

theorem lt_afterChars_of_blockSymbols? {i : Nat} {s : BlockSymbols}
    (h : blockSymbols? profile buf i = some s) : i < buf.afterChars i s.opener.utf8ByteSize :=
  lt_afterChars_of_matchesAt buf (by simpa using List.find?_some h)

-- To the place where every comment of `closers`, innermost first, is closed.
def closeComments (i : Nat) (closers : List String) : Nat :=
  match closers with
  | [] => i
  | closer :: outer =>
    if i < buf.size then
      -- The closer is tried before an opener, so a comment with equal symbols does not nest.
      match _h : buf.skip? i closer false with
      | some j => closeComments j outer
      | none =>
        match _h : if profile.blockCommentsNest then blockSymbols? profile buf i else none with
        | some s =>
          closeComments (buf.afterChars i s.opener.utf8ByteSize) (s.closer :: closer :: outer)
        | none => closeComments (i + 1) (closer :: outer)
    else
      i
termination_by buf.size - i
decreasing_by
  case _ =>
    have := buf.lt_skip? _h
    omega
  case _ =>
    split at _h
    case isTrue =>
      have := lt_afterChars_of_blockSymbols? profile buf _h
      omega
    case isFalse => simp at _h
  case _ => omega

def blockComment? (i : Nat) : Option Nat :=
  (blockSymbols? profile buf i).map fun s =>
    closeComments profile buf (buf.afterChars i s.opener.utf8ByteSize) [s.closer]

-- Past a comment. The block form comes first, because a line symbol may be its beginning.
def comment? (i : Nat) : Option Nat :=
  (blockComment? profile buf i).or (lineComment? profile buf i)

-- To the place after the next `quote` that no backslash precedes.
def closeString (quote : Char) (i : Nat) : Nat :=
  if i < buf.size then
    if buf.isChar i quote then i + 1
    else if buf.isChar i '\\' then closeString quote (min (i + 2) buf.size)
    else closeString quote (i + 1)
  else
    i
termination_by buf.size - i

def string? (i : Nat) : Option Nat :=
  match buf.symbol? i with
  | some c => if c = '"' ∨ c = '\x27' then some (closeString buf c (i + 1)) else none
  | none => none

def quoted? (i : Nat) : Option Nat :=
  (comment? profile buf i).or (string? buf i)

-- The closing bracket for the block that opens at `i`. Angle brackets are brackets only if `angle`
-- is set, since elsewhere they mostly compare.
def opens? (angle : Bool) (i : Nat) : Option Char :=
  match buf.symbol? i with
  | some c => if c = '<' ∧ !angle then none else Text.closing? c
  | none => none

theorem lt_closeString (quote : Char) {i : Nat} (hi : i < buf.size) :
    i < closeString buf quote i := by
  fun_induction closeString buf quote i with
  | case1 => omega
  | case2 i _ _ _ ih =>
    by_cases h : min (i + 2) buf.size < buf.size
    · have := ih h
      omega
    · rw [closeString, if_neg h]
      omega
  | case3 i _ _ _ ih =>
    by_cases h : i + 1 < buf.size
    · have := ih h
      omega
    · rw [closeString, if_neg h]
      omega
  | case4 => omega

theorem le_closeString (quote : Char) (i : Nat) : i ≤ closeString buf quote i := by
  by_cases h : i < buf.size
  · exact Nat.le_of_lt (lt_closeString buf quote h)
  · exact Nat.le_of_eq (by rw [closeString, if_neg h])

theorem le_closeComments (i : Nat) (closers : List String) :
    i ≤ closeComments profile buf i closers := by
  fun_induction closeComments profile buf i closers with
  | case1 => simp
  | case2 i _ _ _ j h ih =>
    have := buf.lt_skip? h
    omega
  | case3 i _ _ _ _ s h ih =>
    have := buf.le_afterChars i s.opener.utf8ByteSize
    omega
  | case4 => omega
  | case5 => omega

theorem lt_lineComment? {i j : Nat} (h : lineComment? profile buf i = some j) : i < j := by
  simp only [lineComment?, Option.map_eq_some_iff] at h
  obtain ⟨s, hs, rfl⟩ := h
  have hlt := lt_afterChars_of_matchesAt buf (List.find?_some hs)
  exact Nat.lt_of_lt_of_le hlt (Buffer.le_seek ..)

theorem lt_blockComment? {i j : Nat} (h : blockComment? profile buf i = some j) : i < j := by
  simp only [blockComment?, Option.map_eq_some_iff] at h
  obtain ⟨s, hs, rfl⟩ := h
  exact Nat.lt_of_lt_of_le (lt_afterChars_of_blockSymbols? profile buf hs) (le_closeComments ..)

theorem lt_comment? {i j : Nat} (h : comment? profile buf i = some j) : i < j := by
  rw [comment?, Option.or_eq_some_iff] at h
  cases h with
  | inl h => exact lt_blockComment? profile buf h
  | inr h => exact lt_lineComment? profile buf h.2

theorem lt_string? {i j : Nat} (h : string? buf i = some j) : i < j := by
  unfold string? at h
  split at h
  case h_1 c _ =>
    split at h
    case isTrue =>
      have := le_closeString buf c (i + 1)
      cases h
      omega
    case isFalse => simp at h
  case h_2 => simp at h

theorem lt_quoted? {i j : Nat} (h : quoted? profile buf i = some j) : i < j := by
  rw [quoted?, Option.or_eq_some_iff] at h
  cases h with
  | inl h => exact lt_comment? profile buf h
  | inr h => exact lt_string? buf h.2

-- To the place where every bracket of `closers`, innermost first, is closed.
def closeBlocks (angle : Bool) (i : Nat) (closers : List Char) : Nat :=
  match closers with
  | [] => i
  | closer :: outer =>
    if i < buf.size then
      match opens? buf angle i with
      | some c => closeBlocks angle (i + 1) (c :: closer :: outer)
      | none =>
        if buf.isChar i closer then closeBlocks angle (i + 1) outer
        else
          match _h : quoted? profile buf i with
          | some j => closeBlocks angle j (closer :: outer)
          | none => closeBlocks angle (i + 1) (closer :: outer)
    else
      i
termination_by buf.size - i
decreasing_by
  case _ => omega
  case _ => omega
  case _ =>
    have := lt_quoted? profile buf _h
    omega
  case _ => omega

def block? (angle : Bool) (i : Nat) : Option Nat :=
  (opens? buf angle i).map fun c => closeBlocks profile buf angle (i + 1) [c]

def enclosed? (angle : Bool) (i : Nat) : Option Nat :=
  (quoted? profile buf i).or (block? profile buf angle i)

theorem le_closeBlocks (angle : Bool) (i : Nat) (closers : List Char) :
    i ≤ closeBlocks profile buf angle i closers := by
  fun_induction closeBlocks profile buf angle i closers with
  | case4 i _ _ _ _ _ j h ih =>
    have := lt_quoted? profile buf h
    omega
  | _ => omega

theorem lt_block? {angle : Bool} {i j : Nat} (h : block? profile buf angle i = some j) :
    i < j := by
  simp only [block?, Option.map_eq_some_iff] at h
  obtain ⟨c, _, rfl⟩ := h
  exact le_closeBlocks profile buf angle (i + 1) [c]

theorem lt_enclosed? {angle : Bool} {i j : Nat} (h : enclosed? profile buf angle i = some j) :
    i < j := by
  rw [enclosed?, Option.or_eq_some_iff] at h
  cases h with
  | inl h => exact lt_quoted? profile buf h
  | inr h => exact lt_block? profile buf h.2

def isNameSymbol (i : Nat) : Bool :=
  match buf.symbol? i with
  | some c => "_*&^$@%".toList.contains c
  | none => false

def isPointer (i : Nat) : Bool :=
  match buf.symbol? i with
  | some c => c = '*' || c = '&' || c = '^'
  | none => false

-- A pointer symbol or the word `const`, which belong to a type also after blanks.
def isTypeSuffix (i : Nat) : Bool :=
  isPointer buf i || (buf.isToken i "const" && !buf.isChar (i + 1) '_')

def afterSuffixes (limit i next : Nat) : Nat :=
  if next < limit ∧ isTypeSuffix buf next then
    afterSuffixes limit (next + 1) (buf.afterBlanks (next + 1) limit)
  else
    i
termination_by limit - next
decreasing_by
  have := buf.le_afterBlanks (next + 1) limit
  omega

-- The block in angle brackets at `i` that is part of a name before `limit`, such as the arguments
-- of a generic type. After the word `operator` the bracket is the operator itself.
def typeArguments? (limit i : Nat) : Option Nat :=
  if buf.isToken (buf.lastNonBlank (i - 1)) "operator" then none
  else (block? profile buf true i).filter (· ≤ limit)

theorem lt_typeArguments? {limit i j : Nat} (h : typeArguments? profile buf limit i = some j) :
    i < j := by
  unfold typeArguments? at h
  split at h
  case isTrue => simp at h
  case isFalse =>
    simp only [Option.filter_eq_some_iff] at h
    exact lt_block? profile buf h.1

def nameEnd (limit i : Nat) : Nat :=
  if i < limit then
    if buf.isText i || isNameSymbol buf i || buf.isChar i '.' || buf.isChar i '?' then
      nameEnd limit (i + 1)
    else if buf.matchesAt i "::" then
      nameEnd limit (i + 2)
    else if buf.isChar i '<' then
      -- Without a block the brackets are an operator, as in `operator<<`.
      match _h : typeArguments? profile buf limit i with
      | some j => nameEnd limit j
      | none => nameEnd limit (Buffer.seek (!buf.isChar · '<') (i + 1) limit)
    else
      match _h : block? profile buf false i with
      | some j => if j ≤ limit then nameEnd limit j else i
      | none =>
        -- After blanks a name goes on only with suffixes, and it ends behind them.
        if buf.isBlank i then afterSuffixes buf limit i (buf.afterBlanks i limit) else i
  else
    i
termination_by limit - i
decreasing_by
  case _ => omega
  case _ => omega
  case _ =>
    have := lt_typeArguments? profile buf _h
    omega
  case _ =>
    have := Buffer.le_seek (!buf.isChar · '<') (i + 1) limit
    omega
  case _ =>
    have := lt_block? profile buf _h
    omega

-- Past what could be the name of a type or a variable, but not past `limit`: names with qualifiers,
-- sigils, array bounds and type arguments, and with the pointer symbols and `const` that follow
-- after blanks. In `int * const x` it ends before `x`, and in `int *x` before `x` too.
def name? (limit i : Nat) : Option Nat :=
  if i < limit ∧ (buf.isText i || isNameSymbol buf i) then
    some (min (nameEnd profile buf limit (i + 1)) limit)
  else
    none

theorem le_afterSuffixes {limit i next : Nat} (h : i ≤ next) :
    i ≤ afterSuffixes buf limit i next := by
  fun_induction afterSuffixes buf limit i next with
  | case1 i next hn ih =>
    have := ih (buf.le_afterBlanks (next + 1) limit)
    omega
  | case2 => omega

theorem le_nameEnd (limit i : Nat) : i ≤ nameEnd profile buf limit i := by
  fun_induction nameEnd profile buf limit i with
  | case3 i _ _ _ _ j h ih =>
    have := lt_typeArguments? profile buf h
    omega
  | case4 i _ _ _ _ h ih =>
    have := Buffer.le_seek (!buf.isChar · '<') (i + 1) limit
    omega
  | case5 i _ _ _ _ j h _ ih =>
    have := lt_block? profile buf h
    omega
  | case7 i _ _ _ _ _ _ => exact le_afterSuffixes buf (buf.le_afterBlanks i limit)
  | _ => omega

theorem lt_name? {limit i j : Nat} (h : name? profile buf limit i = some j) : i < j := by
  unfold name? at h
  split at h
  case isTrue hi =>
    have := le_nameEnd profile buf limit (i + 1)
    cases h
    omega
  case isFalse => simp at h

theorem name?_le {limit i j : Nat} (h : name? profile buf limit i = some j) : j ≤ limit := by
  unfold name? at h
  split at h
  case isTrue =>
    cases h
    omega
  case isFalse => simp at h

end SourceDocs.Skip

import SourceDocs.Cursor
import SourceDocs.Proofs.OneLine.Read

namespace SourceDocs

namespace Text

def folded (ignoreCase : Bool) (c : Char) : Char :=
  if ignoreCase then c.toLower else c

def bytes (cs : List Char) : List UInt8 :=
  cs.flatMap String.utf8EncodeChar

-- A byte as it counts in a comparison. Only ASCII letters have a case.
def foldedByte (ignoreCase : Bool) (b : UInt8) : UInt8 :=
  if ignoreCase ∧ 0x41 ≤ b ∧ b ≤ 0x5a then b + 0x20 else b

def isBoundary (bs : List UInt8) (k : Nat) : Bool :=
  k = bs.length || bs[k]?.any (·.IsUTF8FirstByte)

def cut? (bs : List UInt8) (start stop : Nat) : Option (List UInt8) :=
  if start ≤ stop ∧ isBoundary bs start ∧ isBoundary bs stop then
    some ((bs.drop start).take (stop - start))
  else
    none

variable {cs ds : List Char} {ignoreCase : Bool}

@[simp]
theorem bytes_append (cs ds : List Char) : bytes (cs ++ ds) = bytes cs ++ bytes ds :=
  List.flatMap_append

theorem bytes_inj : bytes cs = bytes ds ↔ cs = ds := by
  refine ⟨fun h => ?_, congrArg bytes⟩
  have h : (String.ofList cs).toByteArray = (String.ofList ds).toByteArray := by
    rw [String.toByteArray_ofList, String.toByteArray_ofList]
    exact congrArg List.toByteArray h
  simpa using congrArg String.toList (String.toByteArray_inj.mp h)

theorem length_bytes_toList (s : String) : (bytes s.toList).length = s.utf8ByteSize := by
  rw [← String.size_toByteArray, ← String.utf8Encode_toList, List.utf8Encode,
    List.size_toByteArray, bytes]

theorem length_bytes_pos (h : cs ≠ []) : 0 < (bytes cs).length := by
  obtain ⟨c, cs, rfl⟩ := List.exists_cons_of_ne_nil h
  have := c.utf8Size_pos
  simp only [bytes, List.flatMap_cons, List.length_append, String.length_utf8EncodeChar]
  omega

theorem isBoundary_bytes (cs ds : List Char) :
    isBoundary (bytes (cs ++ ds)) (bytes cs).length = true := by
  rw [isBoundary, Bool.or_eq_true]
  cases ds
  case nil => simp
  case cons d ds =>
    right
    have hlen := String.length_utf8EncodeChar d
    have hpos := d.utf8Size_pos
    simp [bytes, hlen, hpos]

theorem foldedByte_eq_self (ignoreCase : Bool) {b : UInt8} (h : 0x80 ≤ b) :
    foldedByte ignoreCase b = b := by
  rw [foldedByte, if_neg]
  rintro ⟨-, -, hb⟩
  rw [UInt8.le_iff_toNat_le] at h hb
  exact absurd (h.trans hb) (by decide)

theorem le_of_mem_utf8EncodeChar {c : Char} (hc : 0x80 ≤ c.toNat) {b : UInt8}
    (hb : b ∈ String.utf8EncodeChar c) : 0x80 ≤ b := by
  have hc : 0x80 ≤ c.val.toNat := hc
  rw [UInt8.le_iff_toNat_le]
  change 0x80 ≤ b.toNat
  unfold String.utf8EncodeChar at hb
  dsimp only at hb
  rw [if_neg (by omega)] at hb
  -- Two, three or four bytes, each counted from 0x80 or from further on.
  split at hb
  case' isFalse => split at hb
  all_goals
    simp only [List.mem_cons, List.not_mem_nil, or_false] at hb
    rcases hb with rfl | rfl | rfl | rfl
    all_goals
      simp only [UInt8.toNat_ofNat']
      omega

theorem map_foldedByte_ascii {n : Nat} (hn : n < 0x80) :
    (String.utf8EncodeChar (Char.ofNat n)).map (foldedByte true) =
      String.utf8EncodeChar (Char.ofNat n).toLower := by
  revert n
  decide

theorem toLower_eq_self {c : Char} (hc : 0x80 ≤ c.toNat) : c.toLower = c := by
  rw [Char.toLower, dif_neg]
  rintro ⟨-, hz⟩
  exact absurd (hc.trans hz) (by decide)

theorem map_foldedByte_utf8EncodeChar (ignoreCase : Bool) (c : Char) :
    (String.utf8EncodeChar c).map (foldedByte ignoreCase) =
      String.utf8EncodeChar (folded ignoreCase c) := by
  cases ignoreCase
  case false =>
    have hid : foldedByte false = id := funext fun _ => rfl
    rw [hid, List.map_id, folded, if_neg (by simp)]
  case true =>
    by_cases hc : c.toNat < 0x80
    case pos =>
      have h := map_foldedByte_ascii hc
      rwa [Char.ofNat_toNat] at h
    case neg =>
      rw [folded, if_pos rfl, toLower_eq_self (by omega)]
      refine (List.map_congr_left fun b hb => ?_).trans (List.map_id _)
      exact foldedByte_eq_self true (le_of_mem_utf8EncodeChar (by omega) hb)

theorem map_foldedByte_bytes (ignoreCase : Bool) (cs : List Char) :
    (bytes cs).map (foldedByte ignoreCase) = bytes (cs.map (folded ignoreCase)) := by
  simp only [bytes, List.map_flatMap, List.flatMap_map, map_foldedByte_utf8EncodeChar]

theorem map_folded_eq_iff : cs.map (folded ignoreCase) = ds.map (folded ignoreCase) ↔
    (bytes cs).map (foldedByte ignoreCase) = (bytes ds).map (foldedByte ignoreCase) := by
  rw [map_foldedByte_bytes, map_foldedByte_bytes, bytes_inj]

-- A letter has as many bytes in either case.
theorem length_bytes_of_map_folded (h : cs.map (folded ignoreCase) = ds.map (folded ignoreCase)) :
    (bytes cs).length = (bytes ds).length := by
  simpa using congrArg List.length (map_folded_eq_iff.mp h)

def bisect? (xs : Array Nat) (x lo hi : Nat) : Option Nat :=
  if lo < hi then
    let mid := lo + (hi - lo) / 2
    if xs[mid]? = some x then some mid
    else if xs[mid]?.any (· < x) then bisect? xs x (mid + 1) hi
    else bisect? xs x lo mid
  else
    none
termination_by hi - lo

theorem getElem?_of_bisect? {xs : Array Nat} {x lo hi k : Nat} (h : bisect? xs x lo hi = some k) :
    xs[k]? = some x := by
  fun_induction bisect? xs x lo hi
  case case1 hx => exact Option.some.inj h ▸ hx
  case case2 ih => exact ih h
  case case3 ih => exact ih h
  case case4 => cases h

theorem bisect?_of_getElem? {xs : Array Nat} (hs : xs.toList.Pairwise (· < ·)) {x lo hi k : Nat}
    (hx : xs[k]? = some x) (hlo : lo ≤ k) (hhi : k < hi) : bisect? xs x lo hi = some k := by
  have hmono {i j y z : Nat} (hy : xs[i]? = some y) (hz : xs[j]? = some z) (hij : i < j) :
      y < z := by
    obtain ⟨hi, rfl⟩ := Array.getElem?_eq_some_iff.mp hy
    obtain ⟨hj, rfl⟩ := Array.getElem?_eq_some_iff.mp hz
    exact List.pairwise_iff_getElem.mp hs i j hi hj hij
  fun_induction bisect? xs x lo hi
  case case1 lo hi hlt mid hm =>
    rcases Nat.lt_trichotomy mid k with h | h | h
    · exact absurd (hmono hm hx h) (Nat.lt_irrefl _)
    · rw [h]
    · exact absurd (hmono hx hm h) (Nat.lt_irrefl _)
  case case2 lo hi hlt mid hm hless ih =>
    -- What stands in the middle is too small, so `x` stands behind it.
    obtain ⟨y, hy, hyx⟩ := Option.any_eq_true _ _ |>.mp hless
    refine ih (Nat.lt_of_not_le fun hk => ?_) hhi
    simp only [decide_eq_true_eq] at hyx
    rcases Nat.lt_or_eq_of_le hk with h | rfl
    · exact absurd (hmono hx hy h) (by omega)
    · exact hm hx
  case case3 lo hi hlt mid hm hless ih =>
    refine ih hlo (Nat.lt_of_le_of_ne (Nat.le_of_not_lt fun hk => ?_) fun h => hm (h ▸ hx))
    obtain ⟨hsize, -⟩ := Array.getElem?_eq_some_iff.mp hx
    have hy : xs[mid]? = some xs[mid] := Array.getElem?_eq_getElem (by omega)
    exact hless (by simpa [hy] using hmono hy hx hk)
  case case4 => omega

theorem bisect?_eq_some_iff {xs : Array Nat} (hs : xs.toList.Pairwise (· < ·)) {x k : Nat} :
    bisect? xs x 0 xs.size = some k ↔ xs[k]? = some x := by
  refine ⟨getElem?_of_bisect?, fun h => bisect?_of_getElem? hs h (Nat.zero_le k) ?_⟩
  exact (Array.getElem?_eq_some_iff.mp h).1

end Text

namespace Buffer

variable (buf : Buffer)

def startsFrom (n : Nat) : List Token → List Nat
  | [] => [n]
  | t :: ts => n :: startsFrom (n + (Text.bytes t.chars).length) ts

def starts : Array Nat :=
  (startsFrom 0 buf.tokens.toList).toArray

-- The number of tokens that `literal` covers at `i`, read off the bytes of the text: those of the
-- literal stand where token `i` starts, and another token starts, or the text ends, right behind.
def matchBytes? (i : Nat) (literal : String) (ignoreCase : Bool) : Option Nat :=
  if i < buf.size ∧ literal.toList ≠ [] then do
    let start ← buf.starts[i]?
    let stop := start + literal.utf8ByteSize
    let candidate ← Text.cut? (Text.bytes buf.text) start stop
    guard (candidate.map (Text.foldedByte ignoreCase) =
      (Text.bytes literal.toList).map (Text.foldedByte ignoreCase))
    let j ← Text.bisect? buf.starts stop 0 buf.starts.size
    return j - i
  else
    none

structure IsCover (i n : Nat) (literal : List Char) (ignoreCase : Bool) : Prop where
  le_size : i + n ≤ buf.size
  spelled : (buf.slice i (i + n)).map (Text.folded ignoreCase) =
    literal.map (Text.folded ignoreCase)

variable {buf} {i j k n : Nat} {literal : List Char} {ignoreCase : Bool}

theorem folded_eq_iff {c d : Char} : Text.folded ignoreCase c = Text.folded ignoreCase d ↔
    c = d ∨ (ignoreCase ∧ c.toLower = d.toLower) := by
  cases ignoreCase
  case false => simp [Text.folded]
  case true =>
    rw [Text.folded, Text.folded, if_pos rfl, if_pos rfl]
    exact ⟨fun h => .inr ⟨rfl, h⟩, (·.elim (congrArg Char.toLower) (·.2))⟩

theorem dropLead?_eq_some_iff {cs literal rest : List Char} :
    dropLead? ignoreCase cs literal = some rest ↔ ∃ lead, literal = lead ++ rest ∧
      cs.map (Text.folded ignoreCase) = lead.map (Text.folded ignoreCase) := by
  induction cs generalizing literal
  case nil =>
    rw [dropLead?, Option.some.injEq]
    constructor
    case mp => exact fun h => ⟨[], h, rfl⟩
    case mpr =>
      rintro ⟨lead, rfl, h⟩
      rw [List.map_eq_nil_iff.mp h.symm, List.nil_append]
  case cons c cs hi =>
    cases literal
    case nil =>
      simp only [dropLead?, reduceCtorEq, false_iff, not_exists, not_and]
      intro lead hl h
      rw [(List.append_eq_nil_iff.mp hl.symm).1] at h
      cases h
    case cons d literal =>
      rw [dropLead?, Option.ite_none_right_eq_some, ← folded_eq_iff, hi]
      constructor
      case mp =>
        rintro ⟨hd, lead, rfl, h⟩
        exact ⟨d :: lead, rfl, by rw [List.map_cons, List.map_cons, hd, h]⟩
      case mpr =>
        rintro ⟨lead, hl, h⟩
        obtain ⟨e, lead, rfl⟩ := List.exists_cons_of_ne_nil (l := lead) (by rintro rfl; cases h)
        obtain ⟨rfl, rfl⟩ := List.cons.inj hl
        obtain ⟨hd, h⟩ := List.cons.inj h
        exact ⟨hd, lead, rfl, h⟩

theorem slice_ne_nil (hb : buf.WellFormed) (hij : i < j) (hj : j ≤ buf.size) :
    buf.slice i j ≠ [] := by
  obtain ⟨t, ht⟩ := exists_token (hij.trans_le hj)
  obtain ⟨c, cs, hc, -⟩ := (hb.token ht).ofChar_head
  simp [slice_cons hij ht, hc]

theorem slice_eq_nil_iff (hb : buf.WellFormed) (hj : j ≤ buf.size) :
    buf.slice i j = [] ↔ j ≤ i :=
  ⟨fun h => Nat.le_of_not_lt fun hij => slice_ne_nil hb hij hj h, slice_of_le⟩

theorem isCover_nil_iff (hb : buf.WellFormed) (hi : i ≤ buf.size) :
    buf.IsCover i n [] ignoreCase ↔ n = 0 := by
  constructor
  case mp =>
    intro h
    have := (slice_eq_nil_iff hb h.le_size).mp (List.map_eq_nil_iff.mp h.spelled)
    omega
  case mpr =>
    rintro rfl
    exact ⟨hi, by rw [Nat.add_zero, slice_of_le (Nat.le_refl i)]⟩

theorem IsCover.ne_nil (hb : buf.WellFormed) (hn : 1 ≤ n)
    (h : buf.IsCover i n literal ignoreCase) : literal ≠ [] := by
  rintro rfl
  have := (isCover_nil_iff hb ((Nat.le_add_right i n).trans h.le_size)).mp h
  omega

-- The first token takes its characters off the literal, and the others cover what is left.
theorem isCover_succ_iff (hi : i < buf.size) :
    buf.IsCover i (n + 1) literal ignoreCase ↔
      ∃ rest, dropLead? ignoreCase (buf.chars i) literal = some rest ∧
        buf.IsCover (i + 1) n rest ignoreCase := by
  obtain ⟨t, ht⟩ := exists_token hi
  have hchars : buf.chars i = t.chars := by simp [chars, ht]
  have hslice : buf.slice i (i + (n + 1)) = t.chars ++ buf.slice (i + 1) (i + 1 + n) := by
    rw [show i + 1 + n = i + (n + 1) by omega, slice_cons (by omega) ht]
  constructor
  case mp =>
    rintro ⟨hle, h⟩
    rw [hslice, List.map_append] at h
    obtain ⟨lead, rest, rfl, hlead, hrest⟩ := List.map_eq_append_iff.mp h.symm
    exact ⟨rest, dropLead?_eq_some_iff.mpr ⟨lead, rfl, hchars ▸ hlead.symm⟩,
      ⟨by omega, hrest.symm⟩⟩
  case mpr =>
    rintro ⟨rest, hdrop, hle, h⟩
    obtain ⟨lead, rfl, hlead⟩ := dropLead?_eq_some_iff.mp hdrop
    refine ⟨by omega, ?_⟩
    rw [hslice, List.map_append, List.map_append, ← hchars, hlead, h]

theorem cover?_eq_some_iff (hb : buf.WellFormed) (hi : i ≤ buf.size) :
    buf.cover? ignoreCase i literal = some n ↔ buf.IsCover i n literal ignoreCase := by
  fun_induction cover? buf ignoreCase i literal generalizing n
  case case1 =>
    rw [isCover_nil_iff hb hi, Option.some.injEq]
    exact eq_comm
  case case2 i literal hl hlt ih =>
    simp only [bind, pure, Option.bind_eq_some_iff, Option.some.injEq]
    cases n
    case zero =>
      constructor
      case mp =>
        rintro ⟨_, _, _, _, h⟩
        exact absurd h (Nat.succ_ne_zero _)
      case mpr =>
        intro h
        have hs := h.spelled
        rw [Nat.add_zero, slice_of_le (Nat.le_refl i)] at hs
        exact absurd (List.map_eq_nil_iff.mp hs.symm) hl
    case succ n =>
      simp only [isCover_succ_iff hlt, Nat.add_right_cancel_iff, exists_eq_right]
      exact exists_congr fun rest => and_congr_right fun _ => ih rest hlt
  case case3 i literal hl hn =>
    obtain rfl : i = buf.size := by omega
    refine ⟨fun h => absurd h.symm (Option.some_ne_none n), fun h => ?_⟩
    have hs := h.spelled
    rw [slice_of_le (by have := h.le_size; omega)] at hs
    exact absurd (List.map_eq_nil_iff.mp hs.symm) hl

theorem matchLength?_eq_some_iff (hb : buf.WellFormed) {literal : String} :
    buf.matchLength? i literal ignoreCase = some n ↔
      1 ≤ n ∧ buf.IsCover i n literal.toList ignoreCase := by
  constructor
  case mp =>
    intro h
    have hi := buf.lt_size_of_matchLength? h
    refine ⟨buf.matchLength?_pos h, ?_⟩
    rw [matchLength?, if_neg (buf.ne_nil_of_matchLength? h)] at h
    exact (cover?_eq_some_iff hb (Nat.le_of_lt hi)).mp h
  case mpr =>
    rintro ⟨hn, h⟩
    rw [matchLength?, if_neg (h.ne_nil hb hn)]
    exact (cover?_eq_some_iff hb ((Nat.le_add_right i n).trans h.le_size)).mpr h

theorem IsCover.length_bytes (h : buf.IsCover i n literal ignoreCase) :
    (Text.bytes (buf.slice i (i + n))).length = (Text.bytes literal).length :=
  Text.length_bytes_of_map_folded h.spelled

theorem length_bytes_slice_lt (hb : buf.WellFormed) (hij : i ≤ j) (hjk : j < k)
    (hk : k ≤ buf.size) :
    (Text.bytes (buf.slice i j)).length < (Text.bytes (buf.slice i k)).length := by
  have hpos := Text.length_bytes_pos (slice_ne_nil hb hjk hk)
  rw [← slice_append_slice hij (Nat.le_of_lt hjk), Text.bytes_append, List.length_append]
  omega

theorem length_bytes_slice_le (buf : Buffer) (hij : i ≤ j) (hjk : j ≤ k) :
    (Text.bytes (buf.slice i j)).length ≤ (Text.bytes (buf.slice i k)).length := by
  rw [← slice_append_slice hij hjk, Text.bytes_append, List.length_append]
  exact Nat.le_add_right ..

theorem IsCover.unique (hb : buf.WellFormed) {m : Nat} (h : buf.IsCover i m literal ignoreCase)
    (h' : buf.IsCover i n literal ignoreCase) : m = n := by
  have hm := h.le_size
  have hn := h'.le_size
  have hlen := h.length_bytes.trans h'.length_bytes.symm
  rcases Nat.lt_trichotomy m n with hlt | heq | hlt
  · have := length_bytes_slice_lt hb (Nat.le_add_right i m) (show i + m < i + n by omega) hn
    omega
  · exact heq
  · have := length_bytes_slice_lt hb (Nat.le_add_right i n) (show i + n < i + m by omega) hm
    omega

theorem getElem?_startsFrom (n : Nat) (ts : List Token) (i : Nat) :
    (startsFrom n ts)[i]? = if i ≤ ts.length then
      some (n + (Text.bytes ((ts.take i).flatMap (·.chars))).length) else none := by
  induction ts generalizing n i
  case nil => cases i <;> simp [startsFrom, Text.bytes]
  case cons t ts hi =>
    cases i
    case zero => simp [startsFrom, Text.bytes]
    case succ i =>
      rw [startsFrom, List.getElem?_cons_succ, hi]
      simp only [List.length_cons, Nat.add_le_add_iff_right, List.take_succ_cons, List.flatMap_cons,
        Text.bytes_append, List.length_append, Nat.add_assoc]

theorem getElem?_starts (buf : Buffer) (i : Nat) : buf.starts[i]? =
    if i ≤ buf.size then some (Text.bytes (buf.slice 0 i)).length else none := by
  have hslice : buf.slice 0 i = (buf.tokens.toList.take i).flatMap (·.chars) := by
    simp [slice]
  rw [starts, List.getElem?_toArray, getElem?_startsFrom, hslice, Nat.zero_add]
  rfl

theorem getElem?_starts_eq_some_iff : buf.starts[i]? = some k ↔
    i ≤ buf.size ∧ (Text.bytes (buf.slice 0 i)).length = k := by
  rw [getElem?_starts, Option.ite_none_right_eq_some, Option.some.injEq]

theorem pairwise_starts (hb : buf.WellFormed) : buf.starts.toList.Pairwise (· < ·) := by
  rw [List.pairwise_iff_getElem]
  intro i j hi hj hij
  have hstart {k : Nat} (hk : k < buf.starts.toList.length) :=
    getElem?_starts_eq_some_iff.mp (Array.getElem?_eq_getElem hk)
  rw [Array.getElem_toList, Array.getElem_toList, ← (hstart hi).2, ← (hstart hj).2]
  exact length_bytes_slice_lt hb (Nat.zero_le i) hij (hstart hj).1

theorem length_bytes_slice (buf : Buffer) (hij : i ≤ j) : (Text.bytes (buf.slice 0 j)).length =
    (Text.bytes (buf.slice 0 i)).length + (Text.bytes (buf.slice i j)).length := by
  rw [← slice_append_slice (Nat.zero_le i) hij, Text.bytes_append, List.length_append]

theorem slice_append_textFrom (hi : i ≤ buf.size) : buf.slice 0 i ++ buf.textFrom i = buf.text := by
  rw [textFrom, slice_append_slice (Nat.zero_le i) hi]
  simp [slice, text, size]

-- What the bytes between two places in the table spell is the text of the tokens between them.
theorem cut?_text (hij : i ≤ j) (hj : j ≤ buf.size) :
    Text.cut? (Text.bytes buf.text) (Text.bytes (buf.slice 0 i)).length
      (Text.bytes (buf.slice 0 j)).length = some (Text.bytes (buf.slice i j)) := by
  have hstart := Text.isBoundary_bytes (buf.slice 0 i) (buf.textFrom i)
  have hstop := Text.isBoundary_bytes (buf.slice 0 j) (buf.textFrom j)
  rw [slice_append_textFrom (hij.trans hj)] at hstart
  rw [slice_append_textFrom hj] at hstop
  have hle : (Text.bytes (buf.slice 0 i)).length ≤ (Text.bytes (buf.slice 0 j)).length := by
    rw [length_bytes_slice buf hij]
    exact Nat.le_add_right ..
  have htext : Text.bytes buf.text = Text.bytes (buf.slice 0 i) ++
      (Text.bytes (buf.slice i j) ++ Text.bytes (buf.textFrom j)) := by
    rw [← slice_append_textFrom (hij.trans hj), ← Text.bytes_append, ← Text.bytes_append, textFrom,
      textFrom, slice_append_slice hij hj]
  rw [Text.cut?, if_pos ⟨hle, hstart, hstop⟩, htext, List.drop_left, length_bytes_slice buf hij,
    Nat.add_sub_cancel_left, List.take_left]

theorem matchBytes?_eq_some_iff (hb : buf.WellFormed) {literal : String} :
    buf.matchBytes? i literal ignoreCase = some n ↔
      1 ≤ n ∧ buf.IsCover i n literal.toList ignoreCase := by
  rw [matchBytes?, Option.ite_none_right_eq_some]
  simp only [bind, pure, Option.bind_eq_some_iff, getElem?_starts_eq_some_iff, Option.some.injEq,
    Text.bisect?_eq_some_iff (pairwise_starts hb), Option.guard_eq_some',
    ← Text.length_bytes_toList]
  constructor
  case mp =>
    rintro ⟨⟨hi, hl⟩, _, ⟨-, rfl⟩, candidate, hcut, -, hsame, j, ⟨hj, hlen⟩, rfl⟩
    have hpos := Text.length_bytes_pos hl
    have hij : i < j := by
      by_contra hle
      have := length_bytes_slice buf (Nat.le_of_not_lt hle)
      omega
    rw [← hlen, cut?_text (Nat.le_of_lt hij) hj, Option.some.injEq] at hcut
    subst hcut
    refine ⟨by omega, by omega, ?_⟩
    rwa [Nat.add_sub_cancel' (Nat.le_of_lt hij), Text.map_folded_eq_iff]
  case mpr =>
    rintro ⟨hn, h⟩
    have hle := h.le_size
    have hlen := length_bytes_slice buf (Nat.le_add_right i n)
    have hcut := cut?_text (Nat.le_add_right i n) hle
    rw [h.length_bytes] at hlen
    refine ⟨⟨by omega, h.ne_nil hb hn⟩, _, ⟨by omega, rfl⟩, Text.bytes (buf.slice i (i + n)),
      hlen ▸ hcut, (), Text.map_folded_eq_iff.mp h.spelled, i + n, ⟨hle, hlen⟩, by omega⟩

theorem matchBytes?_eq (hb : buf.WellFormed) (i : Nat) (literal : String) (ignoreCase : Bool) :
    buf.matchBytes? i literal ignoreCase = buf.matchLength? i literal ignoreCase :=
  Option.ext fun _ => (matchBytes?_eq_some_iff hb).trans (matchLength?_eq_some_iff hb).symm

-- The tokens that a literal covers spell it together, and no other number of tokens does. The bytes
-- of the text, with the table of the bytes at which tokens start, tell the same.
theorem literal_covers_tokens (text literal : String) (ignoreCase : Bool) (i : Nat) :
    let buf := Buffer.ofString text
    (∀ n, buf.matchLength? i literal ignoreCase = some n ↔
      1 ≤ n ∧ buf.IsCover i n literal.toList ignoreCase) ∧
    (∀ m n, buf.IsCover i m literal.toList ignoreCase →
      buf.IsCover i n literal.toList ignoreCase → m = n) ∧
    (∀ n, buf.matchLength? i literal ignoreCase = some n →
      buf.skip? i literal ignoreCase = some (i + n) ∧
        (Cursor.position i).nextBy buf n = .position (i + n)) ∧
    buf.matchLength? i "" ignoreCase = none ∧
    (∀ j, i ≤ j → j < buf.size →
      (Text.bytes (buf.slice i j)).length < literal.utf8ByteSize →
      literal.utf8ByteSize < (Text.bytes (buf.slice i (j + 1))).length →
      buf.matchLength? i literal ignoreCase = none) ∧
    ((Text.bytes (buf.textFrom i)).length < literal.utf8ByteSize →
      buf.matchLength? i literal ignoreCase = none) ∧
    buf.matchBytes? i literal ignoreCase = buf.matchLength? i literal ignoreCase := by
  intro buf
  have hb : buf.WellFormed := wellFormed_ofChars _
  have hmatch (n : Nat) : buf.matchLength? i literal ignoreCase = some n ↔
      1 ≤ n ∧ buf.IsCover i n literal.toList ignoreCase := matchLength?_eq_some_iff hb
  have hlen {n : Nat} (hn : buf.matchLength? i literal ignoreCase = some n) :
      (Text.bytes (buf.slice i (i + n))).length = literal.utf8ByteSize :=
    ((hmatch n).mp hn).2.length_bytes.trans (Text.length_bytes_toList literal)
  refine ⟨hmatch, fun m n => IsCover.unique hb, fun n hn => ⟨?skip, ?next⟩, ?empty,
    fun j hij hj hlt hlt' => ?within, fun hlt => ?behind, matchBytes?_eq hb i literal ignoreCase⟩
  case skip => rw [skip?, hn, Option.map_some]
  case next =>
    rw [Cursor.nextBy, Nat.min_eq_left ((hmatch n).mp hn).2.le_size]
  case empty => rw [matchLength?, if_pos (by simp)]
  case within =>
    refine Option.eq_none_iff_forall_ne_some.mpr fun n hn => ?_
    have hlen := hlen hn
    by_cases hnj : i + n ≤ j
    case pos =>
      have := length_bytes_slice_le buf (Nat.le_add_right i n) hnj
      omega
    case neg =>
      have := length_bytes_slice_le buf (show i ≤ j + 1 by omega)
        (show j + 1 ≤ i + n by omega)
      omega
  case behind =>
    refine Option.eq_none_iff_forall_ne_some.mpr fun n hn => ?_
    have hlen := hlen hn
    have := length_bytes_slice_le buf (Nat.le_add_right i n) ((hmatch n).mp hn).2.le_size
    rw [textFrom] at hlt
    omega

-- The opener of a comment covers three tokens behind a letter of two bytes. One byte does not reach
-- the end of that letter, and four characters reach over the end of the text.
theorem literal_covers_tokens_opener :
    let buf := Buffer.ofString "é/**x"
    buf.IsCover 1 3 "/**".toList false ∧ buf.skip? 1 "/**" false = some 4 ∧
      buf.matchLength? 0 "e" false = none ∧ buf.matchLength? 3 "*xyz" false = none := by
  intro buf
  have hcover : buf.IsCover 1 3 "/**".toList false := ⟨by decide +kernel, by decide +kernel⟩
  obtain ⟨hmatch, -, hskip, -⟩ := literal_covers_tokens "é/**x" "/**" false 1
  obtain ⟨-, -, -, -, hwithin, -⟩ := literal_covers_tokens "é/**x" "e" false 0
  obtain ⟨-, -, -, -, -, hbehind, -⟩ := literal_covers_tokens "é/**x" "*xyz" false 3
  refine ⟨hcover, (hskip 3 ((hmatch 3).mpr ⟨by decide, hcover⟩)).1, ?_, ?_⟩
  · exact hwithin 0 (by decide) (by decide +kernel) (by decide +kernel) (by decide +kernel)
  · exact hbehind (by decide +kernel)

end Buffer
end SourceDocs

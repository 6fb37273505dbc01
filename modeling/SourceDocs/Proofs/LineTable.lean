import SourceDocs.Proofs.Lines

namespace SourceDocs.Buffer

variable {buf : Buffer} {i : Nat}

def breakCount (ts : List Token) : Nat :=
  ts.countP (·.kind = .lineBreak)

theorem breakCount_cons (t : Token) (ts : List Token) :
    breakCount (t :: ts) = breakCount ts + if t.kind = .lineBreak then 1 else 0 := by
  simp [breakCount, List.countP_cons]

-- A line starts behind each line break.
theorem length_lineStartsFrom (i : Nat) (ts : List Token) :
    (lineStartsFrom i ts).length = breakCount ts := by
  induction ts generalizing i
  case nil => rfl
  case cons t ts hi =>
    rw [lineStartsFrom, breakCount_cons]
    split <;> simp [hi]

theorem countP_lineStartsFrom (i n : Nat) (ts : List Token) :
    (lineStartsFrom i ts).countP (· ≤ i + n) = breakCount (ts.take n) := by
  induction ts generalizing i n
  case nil => simp [lineStartsFrom, breakCount]
  case cons t ts hi =>
    cases n
    case zero =>
      rw [List.take_zero, breakCount, List.countP_nil, List.countP_eq_zero]
      intro m hm
      obtain ⟨k, -, rfl, -⟩ := mem_lineStartsFrom.mp hm
      simp only [decide_eq_true_eq]
      omega
    case succ n =>
      have hi : (lineStartsFrom (i + 1) ts).countP (· ≤ i + (n + 1)) = breakCount (ts.take n) := by
        rw [← hi (i + 1) n, Nat.add_right_comm, Nat.add_assoc]
      rw [lineStartsFrom, List.take_succ_cons, breakCount_cons]
      split
      case isTrue => rw [List.countP_cons_of_pos (by simp), hi]
      case isFalse => rw [hi, Nat.add_zero]

theorem lineCount_eq (buf : Buffer) : buf.lineCount = breakCount buf.tokens.toList + 1 := by
  rw [lineCount, buf.lineStarts_eq, List.size_toArray, List.length_cons, length_lineStartsFrom]

theorem lineOf_eq_breakCount (buf : Buffer) (i : Nat) :
    buf.lineOf i = breakCount (buf.tokens.toList.take i) + 1 := by
  have h := countP_lineStartsFrom 0 i buf.tokens.toList
  rw [Nat.zero_add] at h
  rw [lineOf, buf.lineStarts_eq, List.countP_cons_of_pos (by simp), h]
  omega

def linePositions (buf : Buffer) (line : Nat) : List Nat :=
  List.range' (buf.lineStart line) (buf.lineEnd line - buf.lineStart line)

theorem range'_split {i j k : Nat} (hij : i ≤ j) (hjk : j ≤ k) :
    List.range' i (k - i) = List.range' i (j - i) ++ List.range' j (k - j) := by
  have happend : List.range' i (j - i) ++ List.range' (i + (j - i)) (k - j) =
      List.range' i (j - i + (k - j)) := List.range'_append_1
  rwa [Nat.add_sub_cancel' hij, show j - i + (k - j) = k - i by omega, eq_comm] at happend

theorem lineStart_one (buf : Buffer) : buf.lineStart 1 = 0 := by
  simp [lineStart, buf.lineStarts_eq]

-- Each line starts where the one before it ends.
theorem flatMap_linePositions {n : Nat} (hn : n ≤ buf.lineCount) :
    (List.range' 1 n).flatMap buf.linePositions = List.range (buf.lineStart (n + 1)) := by
  induction n
  case zero => simp [lineStart_one]
  case succ n hi =>
    have hle := lineStart_le_lineEnd (Nat.le_add_left 1 n) hn
    calc (List.range' 1 (n + 1)).flatMap buf.linePositions
      _ = List.range (buf.lineStart (n + 1)) ++ buf.linePositions (n + 1) := by
        rw [List.range'_1_concat, List.flatMap_append, hi (Nat.le_of_succ_le hn),
          List.flatMap_singleton, Nat.add_comm 1 n]
      _ = List.range (buf.lineEnd (n + 1)) := by
        have hsplit := range'_split (Nat.zero_le _) hle
        rw [Nat.sub_zero, Nat.sub_zero, ← List.range_eq_range', ← List.range_eq_range'] at hsplit
        exact hsplit.symm

-- The tokens of a text are the only canonical ones that spell it. Its lines start at increasing
-- positions, the line of a position is one more than the line breaks before it, and the lines one
-- after the other are all positions in their order.
theorem tokens_and_lines (text : String) :
    let buf := Buffer.ofString text
    (∀ ts, ts = buf.tokens.toList ↔ Token.Canonical ts ∧ ts.flatMap (·.chars) = text.toList) ∧
      buf.lineStarts.toList.Pairwise (· < ·) ∧
      buf.lineCount = breakCount buf.tokens.toList + 1 ∧
      (∀ i, buf.lineOf i = breakCount (buf.tokens.toList.take i) + 1) ∧
      (List.range' 1 buf.lineCount).flatMap buf.linePositions = List.range buf.size := by
  intro buf
  refine ⟨fun ts => ?tokens, buf.pairwise_lineStarts, buf.lineCount_eq, buf.lineOf_eq_breakCount,
    ?positions⟩
  case tokens =>
    have htokens : buf.tokens.toList = Token.scan text.toList := rfl
    rw [htokens]
    constructor
    case mp =>
      rintro rfl
      exact ⟨Token.scan_canonical _, Token.flatMap_chars_scan _⟩
    case mpr =>
      rintro ⟨hc, ht⟩
      rw [← ht, Token.scan_flatMap_chars hc]
  case positions =>
    rw [flatMap_linePositions (Nat.le_refl _)]
    exact congrArg List.range buf.lineEnd_lineCount

end SourceDocs.Buffer

import SourceDocs.Comment.Reading
import SourceDocs.Proofs.Buffer

namespace SourceDocs

namespace Buffer

theorem mem_lineStartsFrom {i n : Nat} {ts : List Token} :
    n ∈ lineStartsFrom i ts ↔
      ∃ k t, n = i + k + 1 ∧ ts[k]? = some t ∧ t.kind = .lineBreak := by
  induction ts generalizing i
  case nil => simp [lineStartsFrom]
  case cons t ts hi =>
    have htail : n ∈ lineStartsFrom (i + 1) ts ↔
        ∃ k u, n = i + (k + 1) + 1 ∧ (t :: ts)[k + 1]? = some u ∧ u.kind = .lineBreak := by
      simp only [hi, List.getElem?_cons_succ, show ∀ k, i + 1 + k + 1 = i + (k + 1) + 1 by omega]
    unfold lineStartsFrom
    split
    case isTrue ht =>
      rw [List.mem_cons, htail]
      constructor
      case mp =>
        rintro (rfl | ⟨k, u, h⟩)
        · exact ⟨0, t, rfl, rfl, ht⟩
        · exact ⟨k + 1, u, h⟩
      case mpr =>
        rintro ⟨_ | k, u, h⟩
        · exact .inl h.1
        · exact .inr ⟨k, u, h⟩
    case isFalse ht =>
      rw [htail]
      constructor
      case mp => exact fun ⟨k, u, h⟩ => ⟨k + 1, u, h⟩
      case mpr =>
        rintro ⟨_ | k, u, h⟩
        · exact absurd (Option.some.inj h.2.1 ▸ h.2.2) ht
        · exact ⟨k, u, h⟩

theorem pairwise_lineStartsFrom (i : Nat) (ts : List Token) :
    (lineStartsFrom i ts).Pairwise (· < ·) := by
  induction ts generalizing i
  case nil => exact .nil
  case cons t ts hi =>
    unfold lineStartsFrom
    split
    case isTrue =>
      refine .cons (fun n hn => ?_) (hi _)
      obtain ⟨k, _, rfl, -⟩ := mem_lineStartsFrom.mp hn
      omega
    case isFalse => exact hi _

variable {buf : Buffer} {line i k : Nat}

theorem pairwise_lineStarts (buf : Buffer) : buf.lineStarts.toList.Pairwise (· < ·) := by
  rw [buf.lineStarts_eq]
  refine .cons (fun n hn => ?_) (pairwise_lineStartsFrom ..)
  obtain ⟨k, _, rfl, -⟩ := mem_lineStartsFrom.mp hn
  omega

theorem mem_lineStarts {n : Nat} :
    n ∈ buf.lineStarts.toList ↔ n = 0 ∨ ∃ k, n = k + 1 ∧ buf.isLineBreak k = true := by
  rw [buf.lineStarts_eq, List.mem_cons, mem_lineStartsFrom]
  refine or_congr_right (exists_congr fun k => ?_)
  simp [isLineBreak, kind?]

theorem lt_size_of_isLineBreak (h : buf.isLineBreak k = true) : k < buf.size :=
  buf.lt_size_of_kind? (by simpa [isLineBreak] using h)

theorem lineCount_pos (buf : Buffer) : 0 < buf.lineCount := by
  simp [lineCount, buf.lineStarts_eq]

theorem lineStart_eq (hl : 1 ≤ line) (hl' : line ≤ buf.lineCount) :
    buf.lineStarts.toList[line - 1]? = some (buf.lineStart line) := by
  obtain ⟨n, rfl⟩ := Nat.exists_eq_add_of_le' hl
  have hn : n < buf.lineStarts.size := hl'
  simp [lineStart, hn]

theorem lineEnd_lineCount (buf : Buffer) : buf.lineEnd buf.lineCount = buf.size := by
  simp [lineEnd, lineStart, lineCount]

theorem lineStart_of_lt (h : buf.lineCount < line) : buf.lineStart line = buf.size := by
  obtain ⟨n, rfl⟩ := Nat.exists_eq_add_of_lt h
  have hn : buf.lineStarts[buf.lineCount + n]? = none :=
    Array.getElem?_eq_none (Nat.le_add_right ..)
  simp [lineStart, hn]

-- Only lines of the text have tokens.
theorem line_bounds (h : buf.lineStart line < buf.size) : 1 ≤ line ∧ line ≤ buf.lineCount := by
  refine ⟨Nat.pos_of_ne_zero fun hl => ?_, Nat.le_of_not_lt fun hl => ?_⟩
  · exact absurd (hl ▸ h) (Nat.lt_irrefl _)
  · exact absurd (lineStart_of_lt hl ▸ h) (Nat.lt_irrefl _)

theorem lineStart_lt {m : Nat} (hl : 1 ≤ line) (hlm : line < m) (hm : m ≤ buf.lineCount) :
    buf.lineStart line < buf.lineStart m := by
  obtain ⟨hi, hline⟩ := List.getElem?_eq_some_iff.mp
    (lineStart_eq hl (Nat.le_of_lt (hlm.trans_le hm)))
  obtain ⟨hj, hlater⟩ := List.getElem?_eq_some_iff.mp (lineStart_eq (by omega) hm)
  rw [← hline, ← hlater]
  exact List.pairwise_iff_getElem.mp buf.pairwise_lineStarts _ _ hi hj (by omega)

theorem isLineBreak_before (hl : 1 ≤ line) (hl' : line < buf.lineCount) :
    ∃ k, buf.lineEnd line = k + 1 ∧ buf.isLineBreak k = true := by
  have hmem : buf.lineEnd line ∈ buf.lineStarts.toList :=
    List.mem_of_getElem? (lineStart_eq (Nat.succ_pos line) hl')
  rcases mem_lineStarts.mp hmem with h | h
  case inl =>
    have : buf.lineStart line < buf.lineEnd line := lineStart_lt hl (Nat.lt_add_one line) hl'
    omega
  case inr => exact h

theorem lineStart_le_lineEnd (hl : 1 ≤ line) (hl' : line ≤ buf.lineCount) :
    buf.lineStart line ≤ buf.lineEnd line := by
  rcases Nat.lt_or_eq_of_le hl' with hlt | rfl
  case inl => exact Nat.le_of_lt (lineStart_lt hl (Nat.lt_add_one line) hlt)
  case inr =>
    rw [lineEnd_lineCount]
    rcases mem_lineStarts.mp (List.mem_of_getElem? (lineStart_eq hl hl')) with h | ⟨k, h, hk⟩
    case inl => omega
    case inr =>
      have := lt_size_of_isLineBreak hk
      omega

theorem lineEnd_le_size (hl : 1 ≤ line) (hl' : line ≤ buf.lineCount) :
    buf.lineEnd line ≤ buf.size := by
  rcases Nat.lt_or_eq_of_le hl' with hlt | rfl
  case inl =>
    obtain ⟨k, hend, hk⟩ := isLineBreak_before hl hlt
    have := lt_size_of_isLineBreak hk
    omega
  case inr => exact Nat.le_of_eq buf.lineEnd_lineCount

-- A line break ends the line on which it stands.
theorem lineEnd_eq_of_isLineBreak (hl' : line ≤ buf.lineCount)
    (hi : buf.lineStart line ≤ i) (hi' : i < buf.lineEnd line) (hb : buf.isLineBreak i = true) :
    buf.lineEnd line = i + 1 ∧ line < buf.lineCount := by
  obtain ⟨m, hm, hget⟩ := List.mem_iff_getElem.mp (mem_lineStarts.mpr (.inr ⟨i, rfl, hb⟩))
  have hcount : m < buf.lineCount := by simpa [lineCount] using hm
  have hstart : buf.lineStart (m + 1) = i + 1 := by
    have : buf.lineStarts.toList[m + 1 - 1]? = some (buf.lineStart (m + 1)) :=
      lineStart_eq (Nat.succ_pos m) hcount
    rw [Nat.add_sub_cancel, List.getElem?_eq_getElem hm, hget] at this
    exact (Option.some.inj this).symm
  have hlm : line < m + 1 := by
    by_contra hle
    rcases Nat.lt_or_eq_of_le (Nat.le_of_not_lt hle) with hlt | heq
    case inl =>
      have : buf.lineStart (m + 1) < buf.lineStart line := lineStart_lt (Nat.succ_pos m) hlt hl'
      omega
    case inr =>
      rw [heq] at hstart
      omega
  have hle : buf.lineEnd line ≤ i + 1 := by
    rcases Nat.lt_or_eq_of_le (Nat.le_of_lt_succ hlm) with hlt | rfl
    case inl =>
      have := lineStart_lt (Nat.succ_pos line) (Nat.succ_lt_succ hlt) hcount
      exact hstart ▸ Nat.le_of_lt this
    case inr => exact Nat.le_of_eq hstart
  exact ⟨by omega, by omega⟩

theorem countP_le_of_bounds {ns : List Nat} (h : ns.Pairwise (· < ·)) {n x : Nat}
    (hx : ns[n]? = some x) (hxi : x ≤ i) (hy : ∀ y ∈ ns[n + 1]?, i < y) :
    ns.countP (· ≤ i) = n + 1 := by
  obtain ⟨hn, hget⟩ := List.getElem?_eq_some_iff.mp hx
  have hord := List.pairwise_iff_getElem.mp h
  rw [← List.take_append_drop (n + 1) ns, List.countP_append]
  have hfirst : (ns.take (n + 1)).countP (· ≤ i) = n + 1 := by
    rw [List.countP_eq_length.mpr, List.length_take, Nat.min_eq_left hn]
    intro z hz
    obtain ⟨m, hm, rfl⟩ := List.mem_take_iff_getElem.mp hz
    rcases Nat.lt_or_eq_of_le (show m ≤ n by omega) with hlt | rfl
    case inl =>
      have := hord m n (by omega) hn hlt
      simp only [decide_eq_true_eq]
      omega
    case inr => simpa [hget] using hxi
  have hrest : (ns.drop (n + 1)).countP (· ≤ i) = 0 := by
    rw [List.countP_eq_zero]
    intro z hz
    obtain ⟨m, hm, rfl⟩ := List.mem_drop_iff_getElem.mp hz
    have hnext := hy _ (List.getElem?_eq_getElem (show n + 1 < ns.length by omega))
    rcases Nat.eq_zero_or_pos m with rfl | hpos
    case inl => simpa using hnext
    case inr =>
      have := hord (n + 1) (n + 1 + m) (by omega) (by omega) (by omega)
      simp only [decide_eq_true_eq]
      omega
  omega

theorem lineOf_eq (hl : 1 ≤ line) (hl' : line ≤ buf.lineCount) (hi : buf.lineStart line ≤ i)
    (hi' : i < buf.lineEnd line) : buf.lineOf i = line := by
  have hcount : buf.lineStarts.toList.countP (· ≤ i) = line - 1 + 1 := by
    refine countP_le_of_bounds buf.pairwise_lineStarts (lineStart_eq hl hl') hi fun y hy => ?_
    have hlast : line < buf.lineCount := by
      obtain ⟨hlt, -⟩ := List.getElem?_eq_some_iff.mp hy
      have : buf.lineStarts.toList.length = buf.lineCount := rfl
      omega
    rw [Nat.sub_add_cancel hl, Option.mem_def] at hy
    have hend : buf.lineEnd line = y :=
      Option.some.inj ((lineStart_eq (Nat.succ_pos line) hlast).symm.trans hy)
    omega
  rw [lineOf, hcount]
  omega

theorem lineOf_mono {j : Nat} (h : i ≤ j) : buf.lineOf i ≤ buf.lineOf j := by
  have := List.countP_mono_left (l := buf.lineStarts.toList) (p := (· ≤ i)) (q := (· ≤ j))
    fun n _ hn => by
      simp only [decide_eq_true_eq] at hn ⊢
      omega
  unfold lineOf
  omega

theorem lineOf_size (buf : Buffer) : buf.lineOf buf.size = buf.lineCount := by
  have hall : buf.lineStarts.toList.countP (· ≤ buf.size) = buf.lineCount := by
    rw [List.countP_eq_length.mpr]
    case _ => rfl
    intro n hn
    rw [decide_eq_true_eq]
    rcases mem_lineStarts.mp hn with rfl | ⟨k, rfl, hk⟩
    case inl => exact Nat.zero_le _
    case inr => exact lt_size_of_isLineBreak hk
  rw [lineOf, hall]
  exact Nat.max_eq_right buf.lineCount_pos

theorem lineOf_le (h : i ≤ buf.size) : buf.lineOf i ≤ buf.lineCount :=
  buf.lineOf_size ▸ lineOf_mono h

-- Only a line break separates two lines.
theorem lineOf_succ (h : buf.isLineBreak i = false) : buf.lineOf (i + 1) = buf.lineOf i := by
  unfold lineOf
  congr 1
  refine List.countP_congr fun n hn => ?_
  have hne : n ≠ i + 1 := by
    rintro rfl
    rcases mem_lineStarts.mp hn with h' | ⟨k, h', hk⟩
    case inl => cases h'
    case inr =>
      cases h'
      simp [h] at hk
  simp only [decide_eq_true_eq]
  omega

theorem lineOf_spells {cs : List Char} (h : buf.spells i cs = true) :
    buf.lineOf (i + cs.length) = buf.lineOf i := by
  induction cs generalizing i
  case nil => rfl
  case cons c cs hi =>
    rw [spells, Bool.and_eq_true] at h
    rw [List.length_cons, ← lineOf_succ (not_isLineBreak_of_isChar h.1), ← hi h.2]
    congr 1
    omega

end Buffer

namespace Comment

variable {buf : Buffer} {line : Nat}

theorem lineStop_of_lt (hl : 1 ≤ line) (hl' : line < buf.lineCount) :
    buf.lineEnd line = lineStop buf line + 1 ∧ buf.isLineBreak (lineStop buf line) = true := by
  obtain ⟨k, hend, hk⟩ := Buffer.isLineBreak_before hl hl'
  have hlt : buf.lineStart line < k + 1 :=
    hend ▸ Buffer.lineStart_lt hl (Nat.lt_add_one line) hl'
  have hstop : lineStop buf line = k := by
    simp [lineStop, hend, hlt, hk]
  exact ⟨hstop ▸ hend, hstop ▸ hk⟩

theorem lineStop_lineCount : lineStop buf buf.lineCount = buf.size := by
  have hend := buf.lineEnd_lineCount
  simp only [lineStop, hend]
  split
  case isTrue h =>
    have := (Buffer.lineEnd_eq_of_isLineBreak (Nat.le_refl _)
      (i := buf.size - 1) (by omega) (by omega) h.2).2
    omega
  case isFalse => rfl

theorem lineStart_le_lineStop (hl : 1 ≤ line) (hl' : line ≤ buf.lineCount) :
    buf.lineStart line ≤ lineStop buf line := by
  rcases Nat.lt_or_eq_of_le hl' with hlt | rfl
  case inl =>
    have := Buffer.lineStart_lt hl (Nat.lt_add_one line) hlt
    have := (lineStop_of_lt hl hlt).1
    rw [Buffer.lineEnd] at this
    omega
  case inr =>
    rw [lineStop_lineCount]
    exact buf.lineEnd_lineCount ▸ Buffer.lineStart_le_lineEnd hl hl'

theorem lineStop_le_lineEnd (buf : Buffer) (line : Nat) : lineStop buf line ≤ buf.lineEnd line := by
  unfold lineStop
  dsimp only
  split <;> omega

-- Only the line break stands behind the end of what is on a line.
theorem isLineBreak_of_lineStop_le {k : Nat} (hl : 1 ≤ line) (hl' : line ≤ buf.lineCount)
    (hk : lineStop buf line ≤ k) (hk' : k < buf.lineEnd line) : buf.isLineBreak k = true := by
  rcases Nat.lt_or_eq_of_le hl' with hlt | rfl
  case inl =>
    obtain ⟨hend, hbreak⟩ := lineStop_of_lt hl hlt
    obtain rfl : k = lineStop buf line := by omega
    exact hbreak
  case inr =>
    rw [lineStop_lineCount] at hk
    rw [buf.lineEnd_lineCount] at hk'
    omega

theorem lineFirst_bounds (hl : 1 ≤ line) (hl' : line ≤ buf.lineCount) :
    buf.lineStart line ≤ lineFirst buf line ∧ lineFirst buf line ≤ lineStop buf line :=
  ⟨buf.le_afterBlanks .., buf.afterBlanks_le (lineStart_le_lineStop hl hl')⟩

-- What is no line break stands on its line with the position behind it.
theorem lt_lineStop_of_isChar {c : Char} {i : Nat} (hl : 1 ≤ line) (hl' : line ≤ buf.lineCount)
    (hi : i ≤ lineStop buf line) (hc : buf.isChar i c = true) : i < lineStop buf line := by
  rcases Nat.lt_or_eq_of_le hi with hlt | rfl
  case inl => exact hlt
  case inr =>
    rcases Nat.lt_or_eq_of_le hl' with hlt | rfl
    case inl =>
      have hb := (lineStop_of_lt hl hlt).2
      simp [Buffer.not_isLineBreak_of_isChar hc] at hb
    case inr =>
      have := buf.lt_size_of_isChar hc
      rw [lineStop_lineCount] at this
      omega

theorem spells_le_lineStop {cs : List Char} {i : Nat} (hl : 1 ≤ line) (hl' : line ≤ buf.lineCount)
    (hi : i ≤ lineStop buf line) (h : buf.spells i cs = true) :
    i + cs.length ≤ lineStop buf line := by
  induction cs generalizing i
  case nil => exact hi
  case cons c cs ih =>
    rw [Buffer.spells, Bool.and_eq_true] at h
    have := ih (lt_lineStop_of_isChar hl hl' hi h.1) h.2
    rw [List.length_cons]
    omega

end Comment
end SourceDocs

import SourceDocs.Proofs.Comment.RuleLine
import SourceDocs.Proofs.Files.Path
import SourceDocs.Proofs.Headers
import SourceDocs.Proofs.LineTable
import SourceDocs.Proofs.Trim

namespace SourceDocs

open Unicode

namespace Text

variable {c : Char} {x : List Char} {xs : List (List Char)}

structure IsLine (x : List Char) : Prop where
  trim_eq : trim x = x
  newline_notMem : '\n' ∉ x

theorem IsLine.nil : IsLine [] :=
  ⟨rfl, by simp⟩

theorem IsLine.head? (h : IsLine x) : ∀ c ∈ x.head?, isWhiteSpace c = false :=
  h.trim_eq ▸ head?_trim x

theorem IsLine.getLast? (h : IsLine x) : ∀ c ∈ x.getLast?, isWhiteSpace c = false :=
  h.trim_eq ▸ getLast?_trimEnd (trimStart x)

def joinLines (xs : List (List Char)) : List Char :=
  List.intercalate ['\n'] xs

theorem joinLines_cons (x : List Char) (h : xs ≠ []) :
    joinLines (x :: xs) = x ++ '\n' :: joinLines xs := by
  obtain ⟨y, ys, rfl⟩ := List.exists_cons_of_ne_nil h
  rw [joinLines, List.intercalate_cons_cons, List.append_assoc]
  rfl

theorem joinLines_concat (h : xs ≠ []) (x : List Char) :
    joinLines (xs ++ [x]) = joinLines xs ++ '\n' :: x := by
  induction xs
  case nil => exact absurd rfl h
  case cons y ys hi =>
    by_cases hys : ys = []
    case pos =>
      subst hys
      simp [joinLines]
    case neg =>
      rw [List.cons_append, joinLines_cons y (by simp), hi hys, joinLines_cons y hys,
        List.append_assoc]
      rfl

theorem trimStart_joinLines (h : ∀ x ∈ xs, IsLine x) :
    trimStart (joinLines xs) = joinLines (xs.dropWhile List.isEmpty) := by
  induction xs
  case nil => rfl
  case cons x xs hi =>
    obtain ⟨hx, hxs⟩ := List.forall_mem_cons.mp h
    cases x
    case nil =>
      rw [List.dropWhile_cons_of_pos rfl, ← hi hxs]
      by_cases hne : xs = []
      case pos => rw [hne]; rfl
      case neg => rw [joinLines_cons _ hne]; rfl
    case cons c cs =>
      rw [List.dropWhile_cons_of_neg (by simp)]
      refine trimStart_eq_self fun d hd => hx.head? d ?_
      by_cases hne : xs = []
      case pos => simpa [hne, joinLines] using hd
      case neg => simpa [joinLines_cons _ hne] using hd

theorem trimEnd_joinLines (h : ∀ x ∈ xs, IsLine x) :
    trimEnd (joinLines xs) = joinLines (xs.rdropWhile List.isEmpty) := by
  induction xs using List.reverseRecOn
  case nil => rfl
  case append_singleton xs x hi =>
    obtain ⟨hxs, hx⟩ := List.forall_mem_append.mp h
    replace hx := hx x (.head _)
    rcases List.eq_nil_or_concat x with rfl | ⟨front, last, rfl⟩
    case inl =>
      rw [List.rdropWhile_concat_pos _ _ _ rfl, ← hi hxs]
      by_cases hne : xs = []
      case pos => rw [hne]; rfl
      case neg =>
        rw [joinLines_concat hne]
        exact trimEnd_append_white (by simp; decide)
    case inr =>
      rw [List.rdropWhile_concat_neg _ _ _ (by simp)]
      refine trimEnd_eq_self fun d hd => hx.getLast? d ?_
      by_cases hne : xs = []
      case pos => simpa [hne, joinLines] using hd
      case neg =>
        rw [joinLines_concat hne, List.concat_eq_append, ← List.cons_append, ← List.append_assoc,
          List.getLast?_concat] at hd
        rwa [List.concat_eq_append, List.getLast?_concat]

theorem splitBy_joinLines (h : ∀ x ∈ xs, IsLine x) (hne : xs ≠ []) :
    splitBy (· = '\n') (joinLines xs) = xs := by
  induction xs
  case nil => exact absurd rfl hne
  case cons x xs hi =>
    obtain ⟨hx, hxs⟩ := List.forall_mem_cons.mp h
    have hsplit : splitBy (· = '\n') x = [x] := splitBy_eq_self fun c hc => by
      simpa using fun hn : c = '\n' => hx.newline_notMem (hn ▸ hc)
    by_cases hne : xs = []
    case pos => simp [hne, joinLines, hsplit]
    case neg =>
      rw [joinLines_cons x hne, splitBy_append_cons (by simp), hsplit, hi hxs hne,
        List.singleton_append]

theorem mem_dropWhile_isEmpty (hx : x ≠ []) : x ∈ xs.dropWhile List.isEmpty ↔ x ∈ xs := by
  conv_rhs => rw [← List.takeWhile_append_dropWhile (p := List.isEmpty) (l := xs)]
  rw [List.mem_append, or_iff_right]
  exact fun h => hx (List.isEmpty_iff.mp (List.mem_takeWhile_imp h))

-- Trimming the whole text takes away empty lines only.
theorem mem_splitBy_trim_joinLines (h : ∀ x ∈ xs, IsLine x) (hx : x ≠ []) :
    x ∈ splitBy (· = '\n') (trim (joinLines xs)) ↔ x ∈ xs := by
  have hstart : ∀ x ∈ xs.dropWhile List.isEmpty, IsLine x :=
    fun x hx => h x ((List.dropWhile_sublist _).subset hx)
  have hlines : ∀ x ∈ (xs.dropWhile List.isEmpty).rdropWhile List.isEmpty, IsLine x :=
    fun x hx => hstart x ((List.rdropWhile_prefix ..).subset hx)
  have hmem : x ∈ (xs.dropWhile List.isEmpty).rdropWhile List.isEmpty ↔ x ∈ xs := by
    rw [List.rdropWhile, List.mem_reverse, mem_dropWhile_isEmpty hx, List.mem_reverse,
      mem_dropWhile_isEmpty hx]
  rw [trim, trimStart_joinLines h, trimEnd_joinLines hstart, ← hmem]
  by_cases hne : (xs.dropWhile List.isEmpty).rdropWhile List.isEmpty = []
  case pos => simp [hne, joinLines, splitBy, hx]
  case neg => rw [splitBy_joinLines hlines hne]

theorem trim_eq_nil_of_isBlank {cs : List Char} (h : isBlank (trim cs) = true) : trim cs = [] := by
  by_contra hne
  obtain ⟨c, rest, hc⟩ := List.exists_cons_of_ne_nil hne
  have hwhite := head?_trim cs c (by simp [hc])
  simp [isBlank, hc, hwhite] at h

end Text

namespace Header

open Text

variable {buf : Buffer} {tags : Comment.Tags} {kinds : KindTable} {line : Nat} {c : Char}
  {x cs : List Char} {xs : List (List Char)}

def ownText (buf : Buffer) (tags : Comment.Tags) (ps : List Nat) : List Char :=
  (ps.filter fun i => tags.get i ≠ some .delimiter && !buf.isLineBreak i).flatMap buf.chars

-- What stands on a line besides delimiters, without white space around it and without the star of a
-- column of stars.
def content (buf : Buffer) (tags : Comment.Tags) (line : Nat) : List Char :=
  withoutStar (trim (ownText buf tags (buf.linePositions line)))

theorem ownText_append (buf : Buffer) (tags : Comment.Tags) (ps qs : List Nat) :
    ownText buf tags (ps ++ qs) = ownText buf tags ps ++ ownText buf tags qs := by
  rw [ownText, List.filter_append, List.flatMap_append]
  rfl

theorem mem_ownText {ps : List Nat} (h : c ∈ ownText buf tags ps) :
    ∃ k ∈ ps, tags.get k ≠ some .delimiter ∧ buf.isLineBreak k = false ∧ c ∈ buf.chars k := by
  obtain ⟨k, hk, hc⟩ := List.mem_flatMap.mp h
  obtain ⟨hk, hown⟩ := List.mem_filter.mp hk
  simp only [Bool.and_eq_true, decide_eq_true_eq, Bool.not_eq_true'] at hown
  exact ⟨k, hk, hown.1, hown.2, hc⟩

theorem utf8ByteSize_replicate (c : Char) (n : Nat) :
    (String.ofList (List.replicate n c)).utf8ByteSize = n * c.utf8Size := by
  induction n
  case zero => simp
  case succ n hi =>
    rw [List.replicate_succ, String.ofList_cons, String.utf8ByteSize_append,
      String.utf8ByteSize_singleton, hi, Nat.succ_mul, Nat.add_comm]

theorem isRule_iff : isRule cs = true ↔ ∃ c n, cs = List.replicate n c ∧ 3 ≤ n * c.utf8Size ∧
    isAlphanumeric c = false ∧ isWhiteSpace c = false := by
  constructor
  case mp =>
    intro h
    cases cs
    case nil => cases h
    case cons c rest =>
      simp only [isRule, Bool.and_eq_true, Bool.not_eq_true', decide_eq_true_eq,
        List.all_eq_true] at h
      obtain ⟨⟨⟨hc, hw⟩, hsize⟩, hall⟩ := h
      have hcs : c :: rest = List.replicate (rest.length + 1) c :=
        List.eq_replicate_iff.mpr ⟨rfl, List.forall_mem_cons.mpr ⟨rfl, hall⟩⟩
      rw [hcs, utf8ByteSize_replicate] at hsize
      exact ⟨c, _, hcs, hsize, hc, hw⟩
  case mpr =>
    rintro ⟨c, n, rfl, hsize, hc, hw⟩
    cases n
    case zero => simp at hsize
    case succ n =>
      rw [← utf8ByteSize_replicate, List.replicate_succ] at hsize
      rw [List.replicate_succ, isRule, hc, hw, decide_eq_true hsize]
      simp

theorem trim_withoutStar (cs : List Char) :
    trim (withoutStar (trim cs)) = withoutStar (trim cs) := by
  unfold withoutStar
  split
  case h_2 => exact trim_trim cs
  case h_1 rest hcs =>
    split
    case isFalse => exact trim_trim cs
    case isTrue =>
      refine trim_eq_self (head?_trimStart rest) fun c hc => getLast?_trimEnd (trimStart cs) c ?_
      obtain ⟨front, hfront⟩ : trimStart rest <:+ trim cs :=
        (List.dropWhile_suffix _).trans (hcs ▸ List.suffix_cons ..)
      change c ∈ (trim cs).getLast?
      rw [← hfront, List.getLast?_append, Option.mem_def.mp hc]
      rfl

theorem isLine_content (hb : buf.WellFormed) (tags : Comment.Tags) (line : Nat) :
    IsLine (content buf tags line) where
  trim_eq := trim_withoutStar _
  newline_notMem hn := by
    obtain ⟨k, -, -, hbreak, hc⟩ := mem_ownText ((trim_isInfix _).subset (withoutStar_subset _ hn))
    exact (hb.unbroken hbreak _ hc).1 rfl

theorem trim_white_append {blanks : List Char} (h : ∀ c ∈ blanks, isWhiteSpace c = true) :
    trim (blanks ++ cs) = trim cs := by
  rw [trim, trimStart, List.dropWhile_append_of_pos h, ← trimStart, trim]

theorem white_of_blanks (hb : buf.WellFormed) {ps : List Nat}
    (h : ∀ k ∈ ps, tags.get k ≠ some .delimiter → buf.isLineBreak k = false →
      buf.isBlank k = true) : ∀ c ∈ ownText buf tags ps, isWhiteSpace c = true := by
  intro c hc
  obtain ⟨k, hk, hdelimiter, hbreak, hc⟩ := mem_ownText hc
  have hspace := h k hk hdelimiter hbreak
  rw [hb.isBlank_eq hc] at hspace
  by_contra hw
  simp [not_isSpace_of_not_isWhiteSpace (Bool.eq_false_iff.mpr hw)] at hspace

theorem ownText_of_isChar (hb : buf.WellFormed) {i n : Nat}
    (h : ∀ k, i ≤ k → k < i + n → buf.isChar k c = true ∧ tags.get k ≠ some .delimiter) :
    ownText buf tags (List.range' i n) = List.replicate n c := by
  induction n generalizing i
  case zero => rfl
  case succ n hi =>
    obtain ⟨hchar, hfree⟩ := h i (Nat.le_refl _) (by omega)
    have hfirst : ownText buf tags [i] = [c] := by
      simp [ownText, hfree, Buffer.not_isLineBreak_of_isChar hchar, hb.chars_eq hchar]
    rw [List.range'_succ, ← List.singleton_append, ownText_append, hfirst,
      hi fun k hk hk' => h k (by omega) (by omega)]
    rfl

theorem not_alphanumeric_of_symbol (h : Token.Kind.ofChar c = .symbol) :
    isAlphanumeric c = false := by
  have hlt := ascii_of_symbol h
  rw [isAlphanumeric, if_pos hlt]
  by_contra hc
  rw [Bool.not_eq_false] at hc
  simp [Token.Kind.ofChar, hc] at h

theorem withoutStar_replicate (c : Char) {n : Nat} (h : 2 ≤ n) :
    withoutStar (List.replicate n c) = List.replicate n c := by
  obtain ⟨m, rfl⟩ := Nat.exists_eq_add_of_le' h
  by_cases hc : c = '*'
  case pos =>
    subst hc
    rfl
  case neg => simp [List.replicate_succ, withoutStar, hc]

-- What stands around a rule on its line.
theorem exists_content (hb : buf.WellFormed) {j : Nat} (hl : 1 ≤ line) (hl' : line ≤ buf.lineCount)
    (hrule : Comment.InRule buf tags line j)
    (hfree : ∀ k, Comment.InRule buf tags line k → tags.get k ≠ some .delimiter) :
    ∃ c n front back, Token.Kind.ofChar c = .symbol ∧ 3 ≤ n ∧
      (∀ d ∈ front, isWhiteSpace d = true) ∧ (∀ d ∈ back, isWhiteSpace d = true) ∧
        content buf tags line = withoutStar (trim (front ++ List.replicate n c ++ back)) := by
  obtain ⟨c, hlen, hchars⟩ := hrule.exists_isChar
  obtain ⟨hstart, hstop⟩ := Comment.lineContent_bounds tags hl hl'
  have hbefore (k : Nat) (hk : buf.lineStart line ≤ k) :
      k < (Comment.lineContent buf tags line).start → tags.get k ≠ some .delimiter →
        buf.isBlank k = true :=
    Comment.isBlank_of_lt_lineContent hk
  have hbehind (k : Nat) :
      (Comment.lineContent buf tags line).stop ≤ k → k < buf.lineEnd line →
        tags.get k ≠ some .delimiter → buf.isLineBreak k = false → buf.isBlank k = true :=
    Comment.isBlank_of_lineContent_le hl hl'
  replace hfree (k : Nat) (hk : _ ≤ k) (hk' : k < _) := hfree k ⟨hrule.rule, hk, hk'⟩
  have hsymbol := hb.ofChar_of_isChar (hchars j hrule.start_le hrule.lt_stop)
  clear hrule
  generalize Comment.lineContent buf tags line = span at *
  obtain ⟨start, stop⟩ := span
  dsimp only at *
  have hsplit : buf.linePositions line =
      List.range' (buf.lineStart line) (start - buf.lineStart line) ++
        List.range' start (stop - start) ++ List.range' stop (buf.lineEnd line - stop) := by
    rw [List.append_assoc, ← Buffer.range'_split (by omega) hstop,
      ← Buffer.range'_split hstart (by omega)]
    rfl
  have hcopies : ownText buf tags (List.range' start (stop - start)) =
      List.replicate (stop - start) c :=
    ownText_of_isChar hb fun k hk hk' => ⟨hchars k hk (by omega), hfree k hk (by omega)⟩
  have hcontent : content buf tags line = withoutStar (trim
      (ownText buf tags (List.range' (buf.lineStart line) (start - buf.lineStart line)) ++
        List.replicate (stop - start) c ++
          ownText buf tags (List.range' stop (buf.lineEnd line - stop)))) := by
    rw [content, hsplit, ownText_append, ownText_append, hcopies]
  refine ⟨c, _, _, _, hsymbol, by omega, ?before, ?behind, hcontent⟩
  case before =>
    refine white_of_blanks hb fun k hk hdelimiter _ => ?_
    rw [List.mem_range'_1] at hk
    exact hbefore k hk.1 (by omega) hdelimiter
  case behind =>
    refine white_of_blanks hb fun k hk hdelimiter hbreak => ?_
    rw [List.mem_range'_1] at hk
    exact hbehind k hk.1 (by omega) hdelimiter hbreak

theorem content_of_rule (hb : buf.WellFormed) {j : Nat} (hrule : Comment.InRule buf tags line j)
    (hfree : ∀ k, Comment.InRule buf tags line k → tags.get k ≠ some .delimiter)
    (hl : 1 ≤ line) (hl' : line ≤ buf.lineCount) :
    content buf tags line = [] ∨ isRule (content buf tags line) = true := by
  obtain ⟨c, n, front, back, hc, hn, hfront, hback, hcontent⟩ :=
    exists_content hb hl hl' hrule hfree
  rw [hcontent, List.append_assoc, trim_white_append hfront, trim_append_white hback]
  cases hw : isWhiteSpace c
  case true =>
    have hwhite : ∀ d ∈ List.replicate n c, isWhiteSpace d = true :=
      fun d hd => List.eq_of_mem_replicate hd ▸ hw
    rw [← List.append_nil (List.replicate n c), trim_white_append hwhite]
    exact .inl rfl
  case false =>
    have hplain : ∀ d ∈ List.replicate n c, isWhiteSpace d = false :=
      fun d hd => List.eq_of_mem_replicate hd ▸ hw
    rw [trim_eq_self (fun d hd => hplain d (List.mem_of_mem_head? hd))
      (fun d hd => hplain d (List.mem_of_getLast? hd)), withoutStar_replicate c (by omega)]
    have hsize : 3 ≤ n * c.utf8Size := hn.trans (Nat.le_mul_of_pos_right n c.utf8Size_pos)
    exact .inr (isRule_iff.mpr ⟨c, n, rfl, hsize, not_alphanumeric_of_symbol hc, hw⟩)

-- A line that is left out for its tags would be left out for its text.
theorem lineText_eq (hb : buf.WellFormed) (h : Comment.RuleAlone buf tags line) :
    lineText buf tags line =
      if isRule (content buf tags line) then [] else content buf tags line := by
  unfold lineText
  dsimp only
  split
  case isTrue hd =>
    simp only [List.any_eq_true, List.mem_range'_1, decide_eq_true_eq] at hd
    obtain ⟨j, ⟨hj, hj'⟩, hd⟩ := hd
    obtain ⟨hrule, hfree⟩ := h j hj (by omega) hd
    obtain ⟨c, -, hall⟩ := hrule.exists_isChar
    have hlt := buf.lt_size_of_isChar (hall j hrule.start_le hrule.lt_stop)
    obtain ⟨hl, hl'⟩ := Buffer.line_bounds (hj.trans_lt hlt)
    rcases content_of_rule hb hrule hfree hl hl' with h | h <;> simp [h]
  case isFalse hd =>
    have hown : (buf.linePositions line).filter (fun i => tags.get i = none && !buf.isLineBreak i) =
        (buf.linePositions line).filter
          fun i => tags.get i ≠ some .delimiter && !buf.isLineBreak i := by
      refine List.filter_congr fun i hi => ?_
      have hi : tags.get i ≠ some .decoration := fun h =>
        hd (List.any_eq_true.mpr ⟨i, hi, decide_eq_true h⟩)
      congr 1
      rw [decide_eq_decide]
      cases ht : tags.get i
      case none => simp
      case some t => cases t <;> simp_all
    rw [content, ownText, ← hown]
    rfl

theorem isLine_lineText (hb : buf.WellFormed) (h : Comment.RuleAlone buf tags line) :
    IsLine (lineText buf tags line) := by
  rw [lineText_eq hb h]
  split
  case isTrue => exact .nil
  case isFalse => exact isLine_content hb tags line

theorem isAlphanumeric_of_isAlpha (h : c.isAlpha = true) : isAlphanumeric c = true := by
  have hlt : c.toNat < 0x80 := by
    have h : 65 ≤ c.toNat ∧ c.toNat ≤ 90 ∨ 97 ≤ c.toNat ∧ c.toNat ≤ 122 := by
      simpa [Char.isAlpha, Char.isUpper, Char.isLower, UInt32.le_iff_toNat_le] using h
    omega
  rw [isAlphanumeric, if_pos hlt, Char.isAlphanum, h, Bool.true_or]

theorem header?_of_isRule (h : isRule cs = true) : header? kinds cs = none := by
  obtain ⟨c, n, rfl, hsize, hc, -⟩ := isRule_iff.mp h
  have halpha : c.isAlpha = false := by
    by_contra ha
    rw [isAlphanumeric_of_isAlpha (by simpa using ha)] at hc
    cases hc
  cases n
  case zero => simp at hsize
  case succ n => simp [header?, keyword?, List.replicate_succ, halpha]

theorem header?_nil : header? kinds [] = none := by
  simp [header?, keyword?]

theorem header?_lineText (hb : buf.WellFormed) (h : Comment.RuleAlone buf tags line) :
    header? kinds (lineText buf tags line) = header? kinds (content buf tags line) := by
  rw [lineText_eq hb h]
  split
  case isTrue hrule => rw [header?_nil, header?_of_isRule hrule]
  case isFalse => rfl

section Sections

variable {text : Nat → List Char} {header l n : Nat} {kind : Kind} {title : List Char}

theorem sections_plain {rest : List (Nat × List Char)} {t : List Char}
    (h : header? kinds t = none) : sections kinds ((line, t) :: rest) =
      (t :: (sections kinds rest).1, (sections kinds rest).2) := by
  simp [sections, h]

theorem sections_header {rest : List (Nat × List Char)} {t : List Char}
    (h : header? kinds t = some (kind, title)) : sections kinds ((line, t) :: rest) =
      ([], ⟨line, kind, title, (sections kinds rest).1⟩ :: (sections kinds rest).2) := by
  simp [sections, h]

theorem mem_lead (hl : line ≤ l) (hn : l < line + n)
    (h : ∀ m, line ≤ m → m ≤ l → header? kinds (text m) = none) :
    text l ∈ (sections kinds ((List.range' line n).map fun l => (l, text l))).1 := by
  induction n generalizing line
  case zero => omega
  case succ n hi =>
    rw [List.range'_succ, List.map_cons, sections_plain (h line (Nat.le_refl _) hl)]
    rcases Nat.lt_or_eq_of_le hl with hlt | rfl
    case inl => exact .tail _ (hi hlt (by omega) fun m hm hm' => h m (by omega) hm')
    case inr => exact .head _

-- The lines behind a header, up to the next one, are the body of its section.
theorem exists_section (hs : line ≤ header) (hl : header < l) (hn : l < line + n)
    (hh : header? kinds (text header) = some (kind, title))
    (h : ∀ m, header < m → m ≤ l → header? kinds (text m) = none) :
    ∃ s ∈ (sections kinds ((List.range' line n).map fun l => (l, text l))).2,
      s.line = header ∧ s.kind = kind ∧ s.title = title ∧ text l ∈ s.body := by
  induction n generalizing line
  case zero => omega
  case succ n hi =>
    rw [List.range'_succ, List.map_cons]
    rcases Nat.lt_or_eq_of_le hs with hlt | rfl
    case inr =>
      rw [sections_header hh]
      exact ⟨_, .head _, rfl, rfl, rfl, mem_lead hl (by omega) fun m hm hm' => h m hm hm'⟩
    case inl =>
      obtain ⟨s, hmem, hsection⟩ := hi hlt (by omega)
      cases hline : header? kinds (text line)
      case none =>
        rw [sections_plain hline]
        exact ⟨s, hmem, hsection⟩
      case some found =>
        rw [sections_header hline]
        exact ⟨s, .tail _ hmem, hsection⟩

end Sections

def bodyLines (e : Entity) : List (List Char) :=
  (e.body.map fun body => splitBy (· = '\n') body.toList).getD []

theorem mem_bodyLines {e : Entity} (h : ∀ y ∈ xs, IsLine y) (hx : x ≠ []) :
    x ∈ bodyLines (e.withBody (trim (joinLines xs))) ↔ x ∈ xs := by
  rw [← mem_splitBy_trim_joinLines h hx, bodyLines, Entity.withBody]
  cases hblank : isBlank (trim (joinLines xs))
  case true => simp [trim_eq_nil_of_isBlank hblank, splitBy, hx]
  case false => simp

-- A line of a comment stands behind a header, with no other header between the two.
structure Follows (kinds : KindTable) (text : Nat → List Char) (c : Comment.Candidate)
    (header line : Nat) (kind : Kind) (title : List Char) : Prop where
  start_le : c.startLine ≤ header
  lt : header < line
  lt_end : line < c.endLine
  isHeader : header? kinds (text header) = some (kind, title)
  plain : ∀ l, header < l → l ≤ line → header? kinds (text l) = none

-- In the comments of a text that has been scanned, however far, a line behind a header that says
-- something is a line of the body of the entity with that header, unless it is a rule: one
-- character over and over, neither alphanumeric nor white space, that takes three bytes or more.
theorem line_in_body_iff (text : List Char) (profile : Profile) (kinds : KindTable)
    (signal : Signal) (n : Nat) (comments : List Comment.Candidate) :
    let buf := Buffer.ofChars text
    let tags := (Comment.scan buf profile (.empty buf) signal n).tags
    ∀ c ∈ comments, ∀ header line kind title,
      Follows kinds (content buf tags) c header line kind title →
        ∃ e ∈ (recognize buf tags kinds comments).2, e.line = header ∧
          e.title = String.ofList title ∧ e.kind = kind.name ∧ e.isEmbedded = false ∧
            (content buf tags line ≠ [] → (content buf tags line ∈ bodyLines e ↔
              ¬∃ sym n, content buf tags line = List.replicate n sym ∧ 3 ≤ n * sym.utf8Size ∧
                isAlphanumeric sym = false ∧ isWhiteSpace sym = false)) := by
  intro buf tags c hc header line kind title h
  have hb := Buffer.wellFormed_ofChars text
  have halone (l : Nat) : Comment.RuleAlone buf tags l :=
    Comment.ruleAlone_scan text profile signal n l
  have hheader (l : Nat) :
      header? kinds (lineText buf tags l) = header? kinds (content buf tags l) :=
    header?_lineText hb (halone l)
  have hlast : line < c.startLine + c.lineCount := by
    have := h.lt_end
    rw [Comment.Candidate.lineCount]
    omega
  obtain ⟨s, hs, hline, hkind, htitle, hbody⟩ := exists_section h.start_le h.lt hlast
    ((hheader header).trans h.isHeader) fun l hl hl' => (hheader l).trans (h.plain l hl hl')
  have hle : c.startLine ≤ c.endLine := by
    have := h.start_le
    have := h.lt
    have := h.lt_end
    omega
  have hreads := (reads_sections buf tags kinds hle).reads s hs
  have hlines : ∀ y ∈ s.body, ∃ l, y = lineText buf tags l := by
    rw [hreads.body]
    intro y hy
    obtain ⟨l, -, rfl⟩ := List.mem_map.mp hy
    exact ⟨l, rfl⟩
  have htrimmed : ∀ y ∈ s.body, IsLine y := by
    intro y hy
    obtain ⟨l, rfl⟩ := hlines y hy
    exact isLine_lineText hb (halone l)
  refine ⟨(Entity.ofHeader (String.ofList s.title) s.kind.name s.line).withBody
    (trim (joinLines s.body)), ?mem, hline, congrArg String.ofList htitle,
    congrArg Kind.name hkind, rfl, fun hne => ?body⟩
  case mem =>
    refine List.mem_flatMap.mpr ⟨c, hc, List.mem_flatMap.mpr ⟨s, hs, ?_⟩⟩
    exact .head _
  case body =>
    rw [mem_bodyLines htrimmed hne, ← isRule_iff, Bool.not_eq_true]
    constructor
    case mp =>
      intro hmem
      obtain ⟨l, hl⟩ := hlines _ hmem
      rw [lineText_eq hb (halone l)] at hl
      split at hl
      case isTrue => exact absurd hl hne
      case isFalse hrule =>
        rw [hl]
        exact Bool.not_eq_true _ ▸ hrule
    case mpr =>
      intro hrule
      rwa [lineText_eq hb (halone line), hrule] at hbody

-- Behind the star of a column, and behind a rule in that column.
theorem line_in_body_iff_star :
    let buf := Buffer.ofChars "/* Function: F\n * ---\n * Text.\n */".toList
    let scan := Comment.scan buf Profile.builtinC.prepared (.empty buf) .never 0
    let c := Comment.Candidate.plain 1 5
    scan.outcome = .completed [c] ∧ content buf scan.tags 2 = "---".toList ∧
      ∃ e ∈ (recognize buf scan.tags .builtin [c]).2,
        e.line = 1 ∧ e.title = "F" ∧ "Text.".toList ∈ bodyLines e := by
  intro buf scan c
  have htext : content buf scan.tags 3 = "Text.".toList := by decide +kernel
  have hplain : ∀ l, 1 < l → l ≤ 3 → header? .builtin (content buf scan.tags l) = none := by
    intro l hl hl'
    obtain rfl | rfl : l = 2 ∨ l = 3 := by omega
    all_goals decide +kernel
  have hfollows : Follows .builtin (content buf scan.tags) c 1 3
      ⟨"function", ["function", "func", "method", "procedure", "routine", "constructor",
        "destructor", "operator"], .normal, false, none⟩ ['F'] :=
    ⟨by decide, by decide, by decide, by decide +kernel, hplain⟩
  obtain ⟨e, he, hline, htitle, -, -, hbody⟩ := line_in_body_iff
    "/* Function: F\n * ---\n * Text.\n */".toList Profile.builtinC.prepared .builtin .never 0 [c]
    c (.head _) 1 3 _ _ hfollows
  have hno : ¬∃ c n, content buf scan.tags 3 = List.replicate n c ∧ 3 ≤ n * c.utf8Size ∧
      Unicode.isAlphanumeric c = false ∧ Unicode.isWhiteSpace c = false := by
    rw [← isRule_iff, htext]
    decide
  refine ⟨by decide +kernel, by decide +kernel, e, he, hline, htitle, ?_⟩
  exact htext ▸ (hbody (by rw [htext]; decide)).mpr hno

-- A dash beyond ASCII is a line of one character. It takes three bytes, so it is left out.
theorem dash_left_out :
    let buf := Buffer.ofChars "// Function: F\n// —\n".toList
    let scan := Comment.scan buf Profile.builtinC.prepared (.empty buf) .never 0
    let c := Comment.Candidate.plain 1 3
    scan.outcome = .completed [c] ∧
      (header? .builtin (content buf scan.tags 1)).map (·.2) = some ['F'] ∧
      content buf scan.tags 2 = ['—'] ∧ header? .builtin ['—'] = none ∧
      (∀ c n, ['—'] = List.replicate n c → n < 3) ∧
      (recognize buf scan.tags .builtin [c]).2.map (fun e => (e.title, e.line, e.body)) =
        [("F", 1, none)] := by
  refine ⟨by decide +kernel, by decide +kernel, by decide +kernel, by decide +kernel, ?_,
    by decide +kernel⟩
  intro c n h
  have hlength := congrArg List.length h
  rw [List.length_replicate, List.length_singleton] at hlength
  omega

end Header
end SourceDocs

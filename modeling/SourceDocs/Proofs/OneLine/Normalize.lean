import SourceDocs.Profile.Builtin
import SourceDocs.Proofs.OneLine.Emit
import SourceDocs.Proofs.OneLine.Tidy
import SourceDocs.Proofs.Trim

namespace SourceDocs.Prototype

open Buffer Chars
open Text (exists_trimEnd getLast?_trimEnd)

variable {profile : Profile} {buf : Buffer} {stop i j : Nat} {c : Char} {out inside : List Char}

def isSpaced (out : List Char) : Bool :=
  out.isEmpty || out.getLast? = some ' '

theorem withSpace_eq (out : List Char) : withSpace out = out ++ space (isSpaced out) := by
  rw [withSpace, isSpaced]
  split
  case isTrue h => simp [h, space]
  case isFalse h => simp [h, space]

theorem isSpaced_withSpace (out : List Char) : isSpaced (withSpace out) = true := by
  rw [withSpace]
  split
  case isTrue h => exact h
  case isFalse => simp [isSpaced]

theorem isSpaced_append {w : List Char} (h : ∀ c ∈ w.getLast?, c ≠ ' ') (hne : w ≠ []) :
    isSpaced (out ++ w) = false := by
  have hlast := List.getLast?_eq_some_getLast hne
  have := h _ hlast
  simp [isSpaced, hne, List.getLast?_append_of_ne_nil _ hne, hlast, this]

theorem slice_textFrom (hi : i ≤ stop) (hs : stop ≤ buf.size) :
    buf.textFrom i = buf.slice i stop ++ buf.textFrom stop :=
  (slice_append_slice hi hs).symm

theorem length_textFrom_le (buf : Buffer) (h : i ≤ j) :
    (buf.textFrom j).length ≤ (buf.textFrom i).length := by
  rcases Nat.le_total j buf.size with hle | hle
  case inl =>
    rw [slice_textFrom h hle, List.length_append]
    omega
  case inr => simp [textFrom_end hle]

theorem exists_slice (hb : buf.WellFormed) (hi : i < stop) (hs : stop ≤ buf.size) :
    ∃ c inside, buf.slice i stop = c :: inside ∧
      buf.textFrom i = c :: (inside ++ buf.textFrom stop) := by
  obtain ⟨t, ht⟩ := exists_token (hi.trans_le hs)
  obtain ⟨c, w, hc, -⟩ := (hb.token ht).ofChar_head
  have hslice : buf.slice i stop = c :: (w ++ buf.slice (i + 1) stop) := by
    rw [slice_cons hi ht, hc, List.cons_append]
  exact ⟨c, _, hslice, by rw [slice_textFrom (Nat.le_of_lt hi) hs, hslice, List.cons_append]⟩

-- A construct that starts in the prototype and goes on to `j` is cut off where the prototype ends.
theorem cut_slice (hb : buf.WellFormed) (hij : i < j) (hs : stop ≤ buf.size)
    (h : buf.slice i stop = c :: inside) :
    c :: taken inside (buf.textFrom stop) (buf.textFrom j) = buf.slice i (min j stop) ∧
      left inside (buf.textFrom stop) (buf.textFrom j) = buf.slice (min j stop) stop := by
  rcases Nat.le_total j stop with hle | hle
  case inr =>
    have hlen := length_textFrom_le buf hle
    rw [taken_of_le hlen, left_of_le hlen, Nat.min_eq_right hle, h, slice_of_le (Nat.le_refl _)]
    exact ⟨rfl, rfl⟩
  case inl =>
    obtain ⟨t, ht⟩ := exists_token (hij.trans_le (hle.trans hs))
    obtain ⟨d, w, hd, -⟩ := (hb.token ht).ofChar_head
    have hstart : buf.slice i j = d :: (w ++ buf.slice (i + 1) j) := by
      rw [slice_cons hij ht, hd, List.cons_append]
    rw [← slice_append_slice (Nat.le_of_lt hij) hle, hstart, List.cons_append] at h
    obtain ⟨rfl, rfl⟩ := List.cons.inj h
    obtain ⟨htaken, hleft⟩ := cut_append (w ++ buf.slice (i + 1) j) (buf.slice j stop)
      (buf.textFrom stop)
    rw [← slice_textFrom hle hs] at htaken hleft
    rw [htaken, hleft, Nat.min_eq_left hle, hstart]
    exact ⟨rfl, rfl⟩

theorem ne_space_of_mem {t : Token} (hw : t.WellFormed) (hk : t.kind ≠ .blank) (hc : c ∈ t.chars) :
    c ≠ ' ' := by
  rintro rfl
  exact hk (hw.ofChar hc).symm

theorem ne_space_of_getLast?_slice (hb : buf.WellFormed) (hij : i < j) (hj : j ≤ buf.size)
    (hn : buf.isBlank (j - 1) = false) : ∀ c ∈ (buf.slice i j).getLast?, c ≠ ' ' := by
  rw [hb.getLast?_slice hij hj]
  rintro c hc rfl
  have hblank : buf.kind? (j - 1) = some .blank := hb.kind?_of_mem (List.mem_of_getLast? hc)
  simp [isBlank, hblank] at hn

section Reading

variable (hp : profile.Punctuated) (hb : buf.WellFormed) {cs : List Char}

include hp hb

theorem isGap_eq (hi : buf.textFrom i = c :: cs) : isGap profile c =
    (buf.isLineBreak i || buf.isBlank i || (extender? profile buf i).isSome) := by
  obtain ⟨t, ht⟩ : ∃ t, buf.tokens[i]? = some t := exists_token <| by
    by_contra hge
    simp [textFrom_end (Nat.le_of_not_lt hge)] at hi
  obtain ⟨d, w, hd, hk⟩ := (hb.token ht).ofChar_head
  obtain rfl : d = c := by
    rw [textFrom_token ht, hd] at hi
    exact (List.cons.inj hi).1
  have hext : profile.lineExtender.any (·.toList = [d]) = (extender? profile buf i).isSome := by
    unfold extender?
    cases hs : profile.lineExtender
    case none => rfl
    case some s =>
      obtain ⟨e, he, hpunct, -⟩ := hp.extender s hs
      have hsymbolic : IsSymbolic s := ⟨by simp [he], by simp [he, ofChar_of_isPunctuation hpunct]⟩
      rw [Option.filter_some, hb.matchesAt_eq hsymbolic, hi, he]
      by_cases hed : e = d <;> simp [hed, he]
  rw [isGap, hk, hext]
  simp [isLineBreak, isBlank, kind?, ht, Bool.or_comm]

-- What is neither white space nor an extender is read as code or as a comment.
theorem exists_code (hi : i < stop) (hs : stop ≤ buf.size)
    (hn : ¬(buf.isLineBreak i || buf.isBlank i) = true) (hext : extender? profile buf i = none) :
    ∃ c inside, buf.slice i stop = c :: inside ∧
      buf.textFrom i = c :: (inside ++ buf.textFrom stop) ∧ isGap profile c = false := by
  obtain ⟨c, inside, hslice, htext⟩ := exists_slice hb hi hs
  exact ⟨c, inside, hslice, htext, by simp [isGap_eq hp hb htext, hn, hext]⟩

theorem exists_extender {s : String} (h : extender? profile buf i = some s) :
    ∃ t, buf.tokens[i]? = some t ∧ (∀ d ∈ t.chars, isGap profile d = true) ∧
      buf.afterChars i s.utf8ByteSize = i + 1 := by
  obtain ⟨hs, hm⟩ := Option.filter_eq_some_iff.mp h
  obtain ⟨d, hd, hpunct, -⟩ := hp.extender s hs
  have hsymbolic : IsSymbolic s := ⟨by simp [hd], by simp [hd, ofChar_of_isPunctuation hpunct]⟩
  have hafter := hb.afterChars_eq hsymbolic hm
  rw [hb.matchesAt_eq hsymbolic, List.isPrefixOf_iff_prefix, hd] at hm
  obtain ⟨cs, hcs⟩ := hm
  have hchar := hb.isChar_of_textFrom (ofChar_of_isPunctuation hpunct) hcs.symm
  obtain ⟨t, ht, hc⟩ := hb.chars_of_isChar hchar
  have hext : profile.lineExtender.any (·.toList = [d]) = true :=
    Option.any_eq_true _ _ |>.mpr ⟨s, hs, by simp [hd]⟩
  exact ⟨t, ht, by simp [hc, isGap, hext], by rw [hafter, hd, List.length_singleton]⟩

theorem read_blockComment (hi : buf.textFrom i = c :: cs) (hgap : isGap profile c = false)
    (hj : Skip.blockComment? profile buf i = some j) :
    read profile c cs = (.comment, buf.textFrom j) := by
  have h := Skip.textFrom_blockComment? hb hp hi
  rw [hj, Option.map_some] at h
  obtain ⟨s, hs, hclosed⟩ := Option.map_eq_some_iff.mp h.symm
  exact read_eq_comment.mpr ⟨hgap, s, hs, hclosed⟩

theorem read_lineComment (hi : buf.textFrom i = c :: cs) (hgap : isGap profile c = false)
    (hn : Skip.blockComment? profile buf i = none)
    (hj : Skip.lineComment? profile buf i = some j) :
    read profile c cs = (.gap, buf.textFrom j) := by
  have h := Skip.textFrom_lineComment? hb hp hi
  have hblock := Skip.textFrom_blockComment? hb hp hi
  rw [hn, Option.map_none] at hblock
  rw [hj, Option.map_some] at h
  obtain ⟨s, hs, hclosed⟩ := Option.map_eq_some_iff.mp h.symm
  rw [Chars.read, if_neg (by simp [hgap]), Option.map_eq_none_iff.mp hblock.symm]
  simp only [hs, hclosed]

theorem read_string (hi : buf.textFrom i = c :: cs) (hgap : isGap profile c = false)
    (hn : Skip.blockComment? profile buf i = none)
    (hn' : Skip.lineComment? profile buf i = none) :
    read profile c cs = (.copied, ((Skip.string? buf i).map buf.textFrom).getD cs) := by
  have hblock := Skip.textFrom_blockComment? hb hp hi
  have hline := Skip.textFrom_lineComment? hb hp hi
  rw [hn, Option.map_none] at hblock
  rw [hn', Option.map_none] at hline
  refine read_eq_copied.mpr ⟨hgap, Option.map_eq_none_iff.mp hblock.symm,
    Option.map_eq_none_iff.mp hline.symm, ?_⟩
  rw [Skip.textFrom_string? hb hi]
  split <;> rfl

end Reading

section Tokens

variable {beyond : List Char} {spaced : Bool} {t : Token}

theorem emit_gaps {w : List Char} (hw : ∀ d ∈ w, isGap profile d = true) :
    emit profile beyond true (w ++ inside) = emit profile beyond true inside := by
  induction w
  case nil => rfl
  case cons d w ih =>
    rw [List.cons_append, emit_gap (read_gap (hw d (.head _))), ih fun e he => hw e (.tail _ he)]
    rfl

theorem isGap_of_space (hb : buf.WellFormed) (ht : buf.tokens[i]? = some t)
    (h : (buf.isLineBreak i || buf.isBlank i) = true) : ∀ d ∈ t.chars, isGap profile d = true := by
  intro d hd
  have hk := (hb.token ht).ofChar hd
  simp only [isLineBreak, isBlank, kind?, ht, Option.map_some, Bool.or_eq_true,
    decide_eq_true_eq, Option.some.injEq] at h
  simp [isGap, hk, h.symm]

theorem kind_of_not_space (ht : buf.tokens[i]? = some t)
    (h : ¬(buf.isLineBreak i || buf.isBlank i) = true) : t.kind = .symbol ∨ t.kind = .text := by
  simp only [isLineBreak, isBlank, kind?, ht, Option.map_some, Bool.or_eq_true,
    decide_eq_true_eq, Option.some.injEq, not_or] at h
  cases hk : t.kind <;> simp_all

theorem emit_gap_token (hb : buf.WellFormed) (hi : i < stop) (ht : buf.tokens[i]? = some t)
    (hgap : ∀ d ∈ t.chars, isGap profile d = true) :
    emit profile beyond spaced (buf.slice i stop) =
      space spaced ++ emit profile beyond true (buf.slice (i + 1) stop) := by
  obtain ⟨d, w, hd, -⟩ := (hb.token ht).ofChar_head
  rw [hd] at hgap
  rw [slice_cons hi ht, hd, List.cons_append, emit_gap (read_gap (hgap d (.head _))),
    emit_gaps fun e he => hgap e (.tail _ he)]

theorem read_text (hp : profile.Punctuated) (hc : Token.Kind.ofChar c = .text) {cs : List Char} :
    read profile c cs = (.copied, cs) := by
  have hplain : Token.Kind.ofChar c ≠ .symbol := by simp [hc]
  have hgap : isGap profile c = false := by
    have hext : profile.lineExtender.any (·.toList = [c]) = false := by
      rw [← Bool.not_eq_true, Option.any_eq_true]
      rintro ⟨s, hs, h⟩
      obtain ⟨d, hd, hpunct, -⟩ := hp.extender s hs
      obtain rfl : d = c := by simpa [hd] using h
      exact hplain (ofChar_of_isPunctuation hpunct)
    simp [isGap, hc, hext]
  refine read_eq_copied.mpr ⟨hgap, Skip.blockSymbols?_plain hp hplain,
    Skip.lineSymbol?_plain hp hplain, if_neg ?_⟩
  rintro (rfl | rfl) <;> exact hplain (by decide)

theorem emit_texts (hp : profile.Punctuated) {w : List Char}
    (hw : ∀ d ∈ w, Token.Kind.ofChar d = .text) :
    emit profile beyond false (w ++ inside) = w ++ emit profile beyond false inside := by
  induction w
  case nil => rfl
  case cons d w ih =>
    rw [List.cons_append, emit_code (read_text hp (hw d (.head _))),
      ih fun e he => hw e (.tail _ he), List.cons_append]

-- A token that is copied is one symbol or a word.
theorem emit_code_token (hp : profile.Punctuated) (hb : buf.WellFormed) (hi : i < stop)
    (ht : buf.tokens[i]? = some t) (hk : t.kind = .symbol ∨ t.kind = .text)
    (hread : ∀ c cs, t.chars = [c] → buf.slice i stop = c :: cs →
      read profile c (cs ++ beyond) = (.copied, cs ++ beyond)) :
    emit profile beyond spaced (buf.slice i stop) =
      t.chars ++ emit profile beyond false (buf.slice (i + 1) stop) := by
  obtain ⟨d, w, hd, -⟩ := (hb.token ht).ofChar_head
  have hslice := slice_cons hi ht
  rcases hk with hk | hk
  case inl =>
    have hw := hb.token ht
    simp only [Token.WellFormed, hk] at hw
    obtain ⟨c, -, hc⟩ := hw
    rw [hc, List.singleton_append] at hslice
    rw [hslice, emit_code (hread c _ hc hslice), hc, List.singleton_append]
  case inr =>
    have htext : ∀ e ∈ d :: w, Token.Kind.ofChar e = .text := fun e he =>
      hk ▸ (hb.token ht).ofChar (hd ▸ he)
    rw [hslice, hd, List.cons_append, emit_code (read_text hp (htext d (.head _))),
      emit_texts hp fun e he => htext e (.tail _ he), List.cons_append]

end Tokens

theorem not_isBlank_string? (hj : Skip.string? buf i = some j) (hlt : j < buf.size) :
    buf.isBlank (j - 1) = false := by
  unfold Skip.string? at hj
  split at hj
  case h_2 => cases hj
  case h_1 =>
    split at hj
    case isFalse => cases hj
    case isTrue =>
      cases hj
      exact Skip.not_isBlank_closeString hlt

-- A string ends with no blank, unless the prototype ends in it, and then nothing follows.
theorem emit_string (hb : buf.WellFormed) (hs : stop ≤ buf.size)
    (hj : Skip.string? buf i = some j) (beyond out : List Char) :
    emit profile beyond false (buf.slice (min j stop) stop) =
      emit profile beyond (isSpaced (out ++ buf.slice i (min j stop)))
        (buf.slice (min j stop) stop) := by
  rcases Nat.lt_or_ge j stop with hlt | hge
  case inr => rw [Nat.min_eq_right hge, slice_of_le (Nat.le_refl _), emit_nil, emit_nil]
  case inl =>
    have hij := Skip.lt_string? buf hj
    obtain ⟨c, inside, hslice, -⟩ := exists_slice hb hij (by omega)
    have hn : buf.isBlank (j - 1) = false := not_isBlank_string? hj (by omega)
    rw [Nat.min_eq_left (Nat.le_of_lt hlt),
      isSpaced_append (ne_space_of_getLast?_slice hb hij (by omega) hn) (by simp [hslice])]

theorem isSpaced_keptComment? (hp : profile.Punctuated) {comment kept : List Char}
    (h : keptComment? profile comment = some kept) (out : List Char) :
    isSpaced (out ++ kept) = false := by
  obtain ⟨d, hd, hsolid⟩ := getLast?_keptComment? hp h
  refine isSpaced_append ?_ ?_
  · rintro e he rfl
    obtain rfl : d = ' ' := Option.some.inj (hd.symm.trans he)
    cases hsolid
  · rintro rfl
    cases hd

theorem isSpaced_chars {t : Token} (hw : t.WellFormed) (hk : t.kind = .symbol ∨ t.kind = .text)
    (out : List Char) : isSpaced (out ++ t.chars) = false := by
  obtain ⟨d, w, hd, -⟩ := hw.ofChar_head
  refine isSpaced_append (fun e he => ne_space_of_mem hw ?_ (List.mem_of_getLast? he)) (by simp [hd])
  rcases hk with hk | hk <;> simp [hk]

theorem normalizeFrom_eq (hp : profile.Punctuated) (hb : buf.WellFormed) (hi : i ≤ stop)
    (hs : stop ≤ buf.size) : normalizeFrom profile buf stop out i =
      out ++ emit profile (buf.textFrom stop) (isSpaced out) (buf.slice i stop) := by
  fun_induction normalizeFrom profile buf stop out i
  case case1 out i hlt hgap ih =>
    obtain ⟨t, ht⟩ := exists_token (show i < buf.size by omega)
    rw [ih (by omega), emit_gap_token hb hlt ht (isGap_of_space hb ht hgap), isSpaced_withSpace,
      withSpace_eq, List.append_assoc]
  case case2 out i hlt hgap s hext out' ih =>
    obtain ⟨t, ht, hgaps, hafter⟩ := exists_extender hp hb hext
    have hout : out' = withSpace out := if_neg (by simp [isInIdentifier_eq_false hp hext])
    rw [ih (by omega), hafter, hout, emit_gap_token hb hlt ht hgaps, isSpaced_withSpace,
      withSpace_eq, List.append_assoc]
  case case3 out i hlt hgap hext j hj out' ih =>
    obtain ⟨c, inside, hslice, htext, hgap⟩ := exists_code hp hb hlt hs hgap hext
    have hread := read_blockComment hp hb htext hgap hj
    obtain ⟨htaken, hleft⟩ := cut_slice hb (Skip.lt_blockComment? profile buf hj) hs hslice
    rw [ih (Nat.min_le_right ..), hslice, emit, hread, htaken, hleft]
    simp only [out']
    cases hk : keptComment? profile (buf.slice i (min j stop))
    case none =>
      simp only
      rw [isSpaced_withSpace, withSpace_eq, List.append_assoc]
    case some kept =>
      simp only
      rw [isSpaced_keptComment? hp hk, List.append_assoc]
  case case4 out i hlt hgap hext hn j hj ih =>
    obtain ⟨c, inside, hslice, htext, hgap⟩ := exists_code hp hb hlt hs hgap hext
    have hread := read_lineComment hp hb htext hgap hn hj
    obtain ⟨-, hleft⟩ := cut_slice hb (Skip.lt_lineComment? profile buf hj) hs hslice
    rw [ih (Nat.min_le_right ..), hslice, emit, hread, hleft, isSpaced_withSpace, withSpace_eq,
      List.append_assoc]
  case case5 out i hlt hgap hext hn hn' j hj ih =>
    obtain ⟨c, inside, hslice, htext, hgap⟩ := exists_code hp hb hlt hs hgap hext
    have hread := read_string hp hb htext hgap hn hn'
    obtain ⟨htaken, hleft⟩ := cut_slice hb (Skip.lt_string? buf hj) hs hslice
    rw [hj, Option.map_some, Option.getD_some] at hread
    rw [ih (Nat.min_le_right ..), hslice, emit, hread, htaken, hleft, List.append_assoc,
      ← emit_string hb hs hj]
  case case6 out i hlt hgap hext hn hn' hq ih =>
    obtain ⟨t, ht⟩ := exists_token (show i < buf.size by omega)
    obtain ⟨c, inside, hslice, htext, hgapc⟩ := exists_code hp hb hlt hs hgap hext
    have hread := read_string hp hb htext hgapc hn hn'
    rw [hq, Option.map_none, Option.getD_none] at hread
    have hk := kind_of_not_space ht hgap
    have hchars : buf.chars i = t.chars := by simp [Buffer.chars, ht]
    rw [ih (by omega), hchars, emit_code_token hp hb hlt ht hk fun d cs _ hd => ?_,
      isSpaced_chars (hb.token ht) hk, List.append_assoc]
    obtain ⟨rfl, rfl⟩ := List.cons.inj (hslice.symm.trans hd)
    exact hread
  case case7 out i hge =>
    rw [slice_of_le (by omega), emit_nil, List.append_nil]

theorem textFrom_ofChars (cs : List Char) : (ofChars cs).textFrom 0 = cs := by
  have := Token.flatMap_chars_scan cs
  simpa [textFrom, slice, size, ofChars, ofTokens] using this

theorem normalize_eq (hp : profile.Punctuated) (hb : buf.WellFormed) {start : Nat}
    (hi : start ≤ stop) (hs : stop ≤ buf.size) : normalize profile buf start stop =
      Text.trimEnd (emit profile (buf.textFrom stop) true (buf.slice start stop)) := by
  rw [normalize, normalizeFrom_eq hp hb hi hs]
  rfl

end SourceDocs.Prototype

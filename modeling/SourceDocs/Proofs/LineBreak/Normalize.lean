import SourceDocs.Proofs.LineBreak.Mark
import SourceDocs.Proofs.LineBreak.Title
import SourceDocs.Prototype.Normalize

namespace SourceDocs.Prototype

open Buffer

variable {profile : Profile}

section Extenders

variable {buf buf' : Buffer} (hp : profile.SymbolsOneLine) (h : Alike buf buf')

include h

theorem isInIdentifier_congr (i : Nat) (extender : String) :
    isInIdentifier buf' i extender = isInIdentifier buf i extender := by
  simp only [isInIdentifier, isIdentifier_congr h]

include hp

theorem extender?_congr (i : Nat) : extender? profile buf' i = extender? profile buf i := by
  unfold extender?
  cases hs : profile.lineExtender
  case none => rfl
  case some s => simp only [Option.filter_some, h.matchesAt (hp.lineExtender s hs).unbroken]

theorem afterExtender_congr {i : Nat} {s : String} (hs : extender? profile buf i = some s) :
    buf'.afterChars i s.utf8ByteSize = buf.afterChars i s.utf8ByteSize := by
  have ⟨hs, hm⟩ := Option.filter_eq_some_iff.mp hs
  exact h.afterChars (hp.lineExtender s hs) hm

end Extenders

variable {b : LineBreak} {cs : List Char}

theorem withSpace_rewrite (out : List Char) :
    withSpace (b.rewrite out) = b.rewrite (withSpace out) := by
  have hlast : (b.rewrite out).getLast? = some ' ' ↔ out.getLast? = some ' ' :=
    b.getLast?_rewrite (by decide) (by decide)
  simp only [withSpace, b.isEmpty_rewrite, hlast]
  split
  · rfl
  · rw [b.rewrite_append]
    rfl

theorem isDirection_rewrite (word : List Char) :
    isDirection (b.rewrite word) = isDirection word := by
  unfold isDirection
  rw [Bool.eq_iff_iff, List.any_eq_true, List.any_eq_true]
  refine exists_congr fun s => and_congr_right fun hs => ?_
  have hs : Unbroken s.toList := by
    simp only [List.mem_cons, List.not_mem_nil, or_false] at hs
    rcases hs with rfl | rfl | rfl | rfl | rfl | rfl | rfl <;> decide
  simp only [decide_eq_true_eq]
  constructor
  case mp =>
    intro h
    -- The direction has no line breaks, and so the word has none either and stays as it is.
    have hword := b.unbroken_of_rewrite (unbroken_of_map_toLower h.symm hs)
    rwa [b.rewrite_unbroken hword] at h
  case mpr =>
    intro h
    rwa [b.rewrite_unbroken (unbroken_of_map_toLower h.symm hs)]

theorem isTelling_rewrite (content : List Char) :
    isTelling (b.rewrite content) = isTelling content := by
  have hhead : (b.rewrite content).head? = some '@' ↔ content.head? = some '@' :=
    b.head?_rewrite (by decide) (by decide)
  have hlast : (b.rewrite content).getLast? = some '@' ↔ content.getLast? = some '@' :=
    b.getLast?_rewrite (by decide) (by decide)
  unfold isTelling
  rw [b.dropWhile_rewrite rfl, b.dropEndWhile_rewrite rfl, isDirection_rewrite]
  congr 1
  simp only [hhead, hlast]
  cases content
  case nil => rfl
  case cons c rest =>
    by_cases hc : c = '@'
    case neg => simp [hc]
    case pos =>
      subst hc
      -- One character cannot stand at both ends of the comment.
      have hlen : 2 ≤ (b.rewrite ('@' :: rest)).length ↔ 2 ≤ ('@' :: rest).length := by
        rw [b.rewrite_cons (by decide), List.length_cons, List.length_cons]
        have hnil : b.rewrite rest = [] ↔ rest = [] := b.rewrite_eq_nil
        cases rest <;> cases hr : b.rewrite _ <;> simp_all
      simp only [hlen]

-- Where the closer starts inside the opener, the two are all there is.
theorem unbroken_or_between {opener closer : List Char} (ho : opener <+: cs) (hc : closer <:+ cs)
    (hou : Unbroken opener) (hcu : Unbroken closer) :
    Unbroken cs ∨ ∃ content, cs = opener ++ content ++ closer := by
  obtain ⟨before, rfl⟩ := hc
  by_cases hle : opener.length ≤ before.length
  case pos =>
    obtain ⟨content, rfl⟩ := List.prefix_of_prefix_length_le ho (List.prefix_append ..) hle
    exact .inr ⟨content, rfl⟩
  case neg =>
    have hbefore : before <+: opener :=
      List.prefix_of_prefix_length_le (List.prefix_append ..) ho (by omega)
    exact .inl ((hou.subset hbefore.subset).append hcu)

theorem take_drop_between (opener content closer : List Char) :
    ((opener ++ content ++ closer).drop opener.length).take
      ((opener ++ content ++ closer).length - closer.length - opener.length) = content := by
  have hlen : (opener ++ content ++ closer).length - closer.length - opener.length =
      content.length := by
    simp only [List.length_append]
    omega
  rw [hlen, List.append_assoc, List.drop_left, List.take_left]

theorem keptComment?_rewrite (hp : profile.SymbolsOneLine) (comment : List Char) :
    keptComment? profile (b.rewrite comment) = keptComment? profile comment := by
  unfold keptComment?
  have hfind : (profile.blockComments.find? fun s =>
      s.opener.toList.isPrefixOf (b.rewrite comment) &&
        s.closer.toList.isSuffixOf (b.rewrite comment)) =
      profile.blockComments.find? fun s =>
        s.opener.toList.isPrefixOf comment && s.closer.toList.isSuffixOf comment := by
    refine List.find?_congr fun s hs => ?_
    have ⟨ho, hc⟩ := hp.blockComments s hs
    rw [b.isPrefixOf_rewrite ho.unbroken, b.isSuffixOf_rewrite hc.unbroken]
  rw [hfind]
  refine Option.bind_congr fun s hs => ?_
  have ⟨ho, hc⟩ := hp.blockComments s (List.mem_of_find?_eq_some hs)
  have hends := List.find?_some hs
  rw [Bool.and_eq_true, List.isPrefixOf_iff_prefix, List.isSuffixOf_iff_suffix] at hends
  rcases unbroken_or_between hends.1 hends.2 ho.unbroken hc.unbroken with hu | ⟨content, rfl⟩
  case inl => rw [b.rewrite_unbroken hu]
  case inr =>
    rw [b.rewrite_append, b.rewrite_append, b.rewrite_unbroken ho.unbroken,
      b.rewrite_unbroken hc.unbroken]
    dsimp only
    rw [take_drop_between, take_drop_between, isTelling_rewrite, b.collapse_rewrite]

-- All white space becomes one space, and only white space has line breaks.
theorem unbroken_collapse (cs : List Char) : Unbroken (collapse cs) := by
  have hwhite {c : Char} (hc : ¬Unicode.isWhiteSpace c = true) : c ≠ '\n' ∧ c ≠ '\r' := by
    constructor <;>
    · rintro rfl
      exact hc (by decide)
  fun_induction collapse cs
  case case1 => exact unbroken_nil
  case case2 hc ih => exact List.forall_mem_cons.mpr ⟨hwhite (by simpa using hc), ih⟩
  case case3 ih => exact ih
  case case4 ih => exact List.forall_mem_cons.mpr ⟨by decide, ih⟩

theorem unbroken_keptComment? (hp : profile.SymbolsOneLine) {comment kept : List Char}
    (h : keptComment? profile comment = some kept) : Unbroken kept := by
  simp only [keptComment?, bind, Option.bind_eq_some_iff] at h
  obtain ⟨s, hs, _, _, hkept⟩ := h
  obtain rfl := Option.some.inj hkept
  have ⟨ho, hc⟩ := hp.blockComments s (List.mem_of_find?_eq_some hs)
  exact (ho.unbroken.append (unbroken_collapse _)).append hc.unbroken

section NormalForm

variable (hb : b = .crlf ∨ b = .cr) (hp : profile.SymbolsOneLine) (hr : '\r' ∉ cs)

include hb hp hr

theorem normalizeFrom_rewrite (stop : Nat) (out : List Char) (i : Nat) :
    normalizeFrom profile (ofChars (b.rewrite cs)) stop (b.rewrite out) i =
      b.rewrite (normalizeFrom profile (ofChars cs) stop out i) := by
  have h := LineBreak.alike_rewrite hb hr
  -- What is added to the text so far is a text on one line or copied from the code.
  have hextender {i : Nat} {s : String} (hs : extender? profile (ofChars cs) i = some s) :
      b.rewrite s.toList = s.toList :=
    b.rewrite_unbroken (hp.lineExtender s (Option.filter_eq_some_iff.mp hs).1).unbroken
  have hkept {comment kept : List Char} (hk : keptComment? profile comment = some kept) :
      b.rewrite kept = kept :=
    b.rewrite_unbroken (unbroken_keptComment? hp hk)
  fun_induction normalizeFrom profile (ofChars cs) stop out i <;> rw [normalizeFrom]
  all_goals
    simp only [h.isLineBreak, h.isBlank, isInIdentifier_congr h, withSpace_rewrite,
      LineBreak.slice_rewrite hb hr, LineBreak.chars_rewrite hb hr, keptComment?_rewrite hp]
    grind [extender?_congr hp h, afterExtender_congr hp h, Skip.blockComment?_congr hp h,
      Skip.lineComment?_congr hp h, Skip.string?_congr h, b.rewrite_append]

theorem normalize_rewrite (start stop : Nat) :
    normalize profile (ofChars (b.rewrite cs)) start stop =
      b.rewrite (normalize profile (ofChars cs) start stop) := by
  rw [normalize, ← b.rewrite_nil, normalizeFrom_rewrite hb hp hr, b.trimEnd_rewrite, normalize]

end NormalForm

-- A text that has line breaks only inside strings of the code.
inductive BrokenInStrings (buf : Buffer) : List Char → Prop
  | nil : BrokenInStrings buf []
  | text {cs ds : List Char} : BrokenInStrings buf cs → Unbroken ds → BrokenInStrings buf (cs ++ ds)
  | string {cs ds : List Char} {i j : Nat} : BrokenInStrings buf cs →
      Skip.string? buf i = some j → ds <+: buf.slice i j → BrokenInStrings buf (cs ++ ds)

namespace BrokenInStrings

variable {buf : Buffer} {ds : List Char}

theorem of_starts (h : BrokenInStrings buf cs) (hd : ds <+: cs) : BrokenInStrings buf ds := by
  -- The start of two texts is one of the first, or it goes on into the second.
  have hsplit {xs ys : List Char} (hd : ds <+: xs ++ ys) :
      ds <+: xs ∨ ∃ zs, ds = xs ++ zs ∧ zs <+: ys := by
    by_cases hle : ds.length ≤ xs.length
    case pos => exact .inl (List.prefix_of_prefix_length_le hd (List.prefix_append ..) hle)
    case neg =>
      obtain ⟨zs, rfl⟩ : xs <+: ds :=
        List.prefix_of_prefix_length_le (List.prefix_append ..) hd (by omega)
      exact .inr ⟨zs, rfl, (List.prefix_append_right_inj xs).mp hd⟩
  induction h
  case nil => exact List.prefix_nil.mp hd ▸ .nil
  case text hx hu hi =>
    rcases hsplit hd with hd | ⟨zs, rfl, hz⟩
    · exact hi hd
    · exact hx.text (hu.subset hz.subset)
  case string hx hs hq hi =>
    rcases hsplit hd with hd | ⟨zs, rfl, hz⟩
    · exact hi hd
    · exact hx.string hs (hz.trans hq)

theorem return_notMem (hr : '\r' ∉ cs) (h : BrokenInStrings (ofChars cs) ds) : '\r' ∉ ds := by
  induction h
  case nil => exact List.not_mem_nil
  case text hu hi => exact List.not_mem_append hi fun hm => (hu _ hm).2 rfl
  case string hq hi =>
    refine List.not_mem_append hi fun hm => hr ?_
    have hm := hq.subset hm
    -- A string is copied from the tokens, which have the characters of the text.
    simp only [slice, List.mem_flatMap, Array.mem_toList_iff, Array.mem_extract_iff_getElem] at hm
    obtain ⟨t, ⟨k, hk, rfl⟩, hc⟩ := hm
    exact Token.mem_chars_of_mem_scan (List.getElem_mem _) hc

end BrokenInStrings

theorem slice_starts {buf : Buffer} (i : Nat) {j k : Nat} (h : j ≤ k) :
    buf.slice i j <+: buf.slice i k := by
  simp only [slice, Array.toList_extract]
  exact List.IsPrefix.flatMap (List.take_prefix_take_left (by omega)) _

theorem brokenInStrings_withSpace {buf : Buffer} {out : List Char} (h : BrokenInStrings buf out) :
    BrokenInStrings buf (withSpace out) := by
  unfold withSpace
  split
  · exact h
  · exact h.text (by decide)

-- The text so far is broken in strings only, and of all that is added only strings can have line
-- breaks: other line breaks of the code become spaces.
theorem brokenInStrings_normalizeFrom {buf : Buffer} (hb : buf.WellFormed)
    (hp : profile.SymbolsOneLine) {stop i : Nat} {out : List Char}
    (h : BrokenInStrings buf out) : BrokenInStrings buf (normalizeFrom profile buf stop out i) := by
  fun_induction normalizeFrom profile buf stop out i
  case case1 ih => exact ih (brokenInStrings_withSpace h)
  case case2 s hs out' ih =>
    refine ih ?_
    simp only [out']
    split
    · exact h.text (hp.lineExtender s (Option.filter_eq_some_iff.mp hs).1).unbroken
    · exact brokenInStrings_withSpace h
  case case3 out' ih =>
    refine ih ?_
    simp only [out']
    split
    case h_1 hkept => exact h.text (unbroken_keptComment? hp hkept)
    case h_2 => exact brokenInStrings_withSpace h
  case case4 ih => exact ih (brokenInStrings_withSpace h)
  case case5 i _ _ _ _ _ j hs ih => exact ih (h.string hs (slice_starts i (Nat.min_le_left ..)))
  case case6 hblank _ _ _ _ ih =>
    refine ih (h.text (hb.unbroken ?_))
    simp only [Bool.or_eq_true, not_or, Bool.not_eq_true] at hblank
    exact hblank.1
  case case7 => exact h

theorem brokenInStrings_normalize {buf : Buffer} (hb : buf.WellFormed)
    (hp : profile.SymbolsOneLine) (start stop : Nat) :
    BrokenInStrings buf (normalize profile buf start stop) :=
  (brokenInStrings_normalizeFrom hb hp .nil).of_starts (List.rdropWhile_prefix _ _)

end SourceDocs.Prototype

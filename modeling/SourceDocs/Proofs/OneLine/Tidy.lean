import SourceDocs.Proofs.OneLine.Reread

namespace SourceDocs.Prototype

open Buffer

variable {profile : Profile} {buf : Buffer} {start stop i j : Nat} {c : Char} {cs ds : List Char}

-- A text with single spaces, apart from strings that start between `start` and `stop`.
inductive Tidy (buf : Buffer) (start stop : Nat) : List Char → Prop
  | nil : Tidy buf start stop []
  | space {cs : List Char} : Tidy buf start stop cs → cs ≠ [] → cs.getLast? ≠ some ' ' →
      Tidy buf start stop (cs ++ [' '])
  | code {cs : List Char} {c : Char} : Tidy buf start stop cs → c ∉ [' ', '\t', '\n', '\r'] →
      Tidy buf start stop (cs ++ [c])
  | string {cs ds : List Char} {i j : Nat} : Tidy buf start stop cs → start ≤ i → i < stop →
      Skip.string? buf i = some j → ds <+: buf.slice i (min j stop) →
      Tidy buf start stop (cs ++ ds)

theorem not_blank_of_solid (h : Unicode.isWhiteSpace c = false) :
    c ∉ [' ', '\t', '\n', '\r'] := by
  rintro hm
  simp only [List.mem_cons, List.not_mem_nil, or_false] at hm
  rcases hm with rfl | rfl | rfl | rfl <;> cases h

theorem isChar_of_string? (h : Skip.string? buf i = some j) :
    ∃ c, buf.isChar i c = true ∧ (c = '"' ∨ c = '\x27') := by
  unfold Skip.string? at h
  split at h
  case h_2 => cases h
  case h_1 c hc =>
    split at h
    case isFalse => cases h
    case isTrue hquote => exact ⟨c, by simpa [Buffer.isChar] using hc, hquote⟩

-- Only an underscore can be a line extender and a part of an identifier.
theorem isInIdentifier_eq_false (hp : profile.Punctuated) {s : String}
    (h : extender? profile buf i = some s) : isInIdentifier buf i s = false := by
  obtain ⟨c, hc, -, hne⟩ := hp.extender s (Option.filter_eq_some_iff.mp h).1
  have : s ≠ "_" := by
    rintro rfl
    exact hne (List.cons.inj hc).1.symm
  simp [isInIdentifier, this]

namespace Tidy

theorem of_starts (h : Tidy buf start stop cs) (hd : ds <+: cs) : Tidy buf start stop ds := by
  induction h
  case nil => exact List.prefix_nil.mp hd ▸ .nil
  case space cs hc hne hlast ih =>
    rcases List.prefix_concat_iff.mp hd with rfl | hd
    · exact hc.space hne hlast
    · exact ih hd
  case code cs c hc hm ih =>
    rcases List.prefix_concat_iff.mp hd with rfl | hd
    · exact hc.code hm
    · exact ih hd
  case string cs es i j hc hi hi' hj hes ih =>
    rcases Chars.prefix_append_cases hd with ⟨more, rfl⟩ | ⟨gs, rfl, -, hgs⟩
    · exact ih (List.prefix_append ..)
    · exact hc.string hi hi' hj (hgs.trans hes)

theorem head_ne (hb : buf.WellFormed) (h : Tidy buf start stop cs) : cs.head? ≠ some ' ' := by
  induction h
  case nil => simp
  case space cs hc hne hlast ih => rwa [List.head?_append_of_ne_nil _ hne]
  case code cs c hc hm ih =>
    cases cs
    case nil => exact fun h => hm (by simp_all)
    case cons => simpa using ih
  case string cs ds i j hc hi hi' hj hds ih =>
    cases cs
    case cons => simpa using ih
    case nil =>
      obtain ⟨c, hchar, hc⟩ := isChar_of_string? hj
      obtain ⟨t, ht, htc⟩ := hb.chars_of_isChar hchar
      have hlt : i < min j stop := by
        have := Skip.lt_string? buf hj
        omega
      rw [slice_cons hlt ht, htc] at hds
      rcases List.prefix_cons_iff.mp hds with rfl | ⟨ds, rfl, -⟩
      · simp
      · rcases hc with rfl | rfl <;> simp

theorem withSpace (h : Tidy buf start stop cs) : Tidy buf start stop (withSpace cs) := by
  unfold Prototype.withSpace
  split
  case isTrue => exact h
  case isFalse hn =>
    simp only [Bool.or_eq_true, List.isEmpty_iff, decide_eq_true_eq, not_or] at hn
    exact h.space hn.1 hn.2

theorem append_code (h : Tidy buf start stop cs) (hd : ∀ c ∈ ds, c ∉ [' ', '\t', '\n', '\r']) :
    Tidy buf start stop (cs ++ ds) := by
  induction ds generalizing cs
  case nil => rwa [List.append_nil]
  case cons d ds ih =>
    rw [← List.singleton_append, ← List.append_assoc]
    exact ih (h.code (hd d (.head _))) fun c hc => hd c (.tail _ hc)

-- No space is added behind another one, or at the beginning.
theorem append_condensed (h : Tidy buf start stop cs) (hd : Condensed ds)
    (hfirst : cs ≠ [] ∧ cs.getLast? ≠ some ' ' ∨ ds.head?.any Unicode.isWhiteSpace = false) :
    Tidy buf start stop (cs ++ ds) := by
  induction ds generalizing cs
  case nil => rwa [List.append_nil]
  case cons d ds ih =>
    have htail : Condensed ds := ⟨fun c hc => hd.space c (.tail _ hc), hd.single.tail⟩
    rw [← List.singleton_append, ← List.append_assoc]
    cases hw : Unicode.isWhiteSpace d
    case false =>
      refine ih (h.code (not_blank_of_solid hw)) htail (.inl ⟨by simp, ?_⟩)
      rw [List.getLast?_concat]
      rintro heq
      obtain rfl := Option.some.inj heq
      cases hw
    case true =>
      obtain rfl := hd.space d (.head _) hw
      have ⟨hne, hlast⟩ := hfirst.resolve_right (by simp [hw])
      refine ih (h.space hne hlast) htail (.inr ?_)
      have := List.isChain_cons.mp hd.single |>.1
      cases hds : ds.head?
      case none => rfl
      case some e =>
        have := this e hds
        simpa [hw] using this

end Tidy

theorem tidy_normalizeFrom (hp : profile.Punctuated) (hb : buf.WellFormed) {out : List Char}
    (h : Tidy buf start stop out) (hi : start ≤ i) :
    Tidy buf start stop (normalizeFrom profile buf stop out i) := by
  fun_induction normalizeFrom profile buf stop out i
  case case1 ih => exact ih h.withSpace (by omega)
  case case2 out i _ _ s hs out' ih =>
    have hlt := lt_afterChars_of_extender? profile buf hs
    simp only [out', isInIdentifier_eq_false hp hs] at ih ⊢
    exact ih h.withSpace (by omega)
  case case3 out i hlt _ _ j hj out' ih =>
    have hlt' := Skip.lt_blockComment? profile buf hj
    refine ih ?_ (by omega)
    simp only [out']
    split
    case h_1 kept hk =>
      refine h.append_condensed ?_ (.inr (head?_keptComment? hp hk))
      exact (keptComment?_collapse hp hk).1 ▸ condensed_collapse _
    case h_2 => exact h.withSpace
  case case4 out i hlt _ _ _ j hj ih =>
    have hlt' := Skip.lt_lineComment? profile buf hj
    exact ih h.withSpace (by omega)
  case case5 out i hlt _ _ _ _ j hj ih =>
    have hlt' := Skip.lt_string? buf hj
    exact ih (h.string hi hlt hj List.prefix_rfl) (by omega)
  case case6 out i _ hgap _ _ _ _ ih =>
    refine ih (h.append_code fun c hc hm => hgap ?_) (by omega)
    cases ht : buf.tokens[i]?
    case none => simp [Buffer.chars, ht] at hc
    case some t =>
      have hk := (hb.token ht).ofChar (show c ∈ t.chars by simpa [Buffer.chars, ht] using hc)
      simp only [List.mem_cons, List.not_mem_nil, or_false] at hm
      have hkind : t.kind = .blank ∨ t.kind = .lineBreak := by
        rw [← hk]
        rcases hm with rfl | rfl | rfl | rfl <;> decide
      simpa [isLineBreak, isBlank, kind?, ht, Or.comm] using hkind
  case case7 => exact h

end SourceDocs.Prototype

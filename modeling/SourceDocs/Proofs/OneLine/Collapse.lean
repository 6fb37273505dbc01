import SourceDocs.Proofs.LineBreak.Normalize

namespace SourceDocs.Prototype

open Unicode

def Solid (cs : List Char) : Prop :=
  ∀ c ∈ cs, isWhiteSpace c = false

instance : DecidablePred Solid := fun _ =>
  inferInstanceAs (Decidable (∀ _ ∈ _, _))

-- A text in which all white space is single spaces.
structure Condensed (cs : List Char) : Prop where
  space : ∀ c ∈ cs, isWhiteSpace c = true → c = ' '
  single : cs.IsChain fun c d => ¬(isWhiteSpace c = true ∧ isWhiteSpace d = true)

variable {c d : Char} {cs ds s : List Char}

theorem Solid.cons_iff : Solid (c :: cs) ↔ isWhiteSpace c = false ∧ Solid cs :=
  List.forall_mem_cons

theorem Solid.subset (h : Solid cs) (hs : ds ⊆ cs) : Solid ds :=
  fun c hc => h c (hs hc)

theorem collapse_solid_cons (h : isWhiteSpace c = false) :
    collapse (c :: cs) = c :: collapse cs := by
  simp [collapse, h]

theorem collapse_white_white (hc : isWhiteSpace c = true) (hd : isWhiteSpace d = true) :
    collapse (c :: d :: cs) = collapse (d :: cs) := by
  rw [collapse]
  simp [hc, hd]

theorem collapse_white_solid (hc : isWhiteSpace c = true)
    (hcs : cs.head?.any isWhiteSpace = false) : collapse (c :: cs) = ' ' :: collapse cs := by
  simp [collapse, hc, hcs]

theorem exists_collapse_white (h : isWhiteSpace c = true) :
    ∃ ds, collapse (c :: cs) = ' ' :: ds := by
  induction cs generalizing c
  case nil => exact ⟨_, collapse_white_solid h rfl⟩
  case cons d cs ih =>
    cases hd : isWhiteSpace d
    case false => exact ⟨_, collapse_white_solid h (by simpa using hd)⟩
    case true =>
      rw [collapse_white_white h hd]
      exact ih hd

-- The two parts do not share a run of white space.
theorem collapse_append (h : ∀ c ∈ cs.getLast?, isWhiteSpace c = true →
    ds.head?.any isWhiteSpace = false) : collapse (cs ++ ds) = collapse cs ++ collapse ds := by
  fun_induction collapse cs
  case case1 => rfl
  case case2 c rest hc ih =>
    have hc : isWhiteSpace c = false := by simpa using hc
    rw [List.cons_append, collapse_solid_cons hc, ih ?_, List.cons_append]
    intro d hd
    exact h d (by simp_all [List.getLast?_cons])
  case case3 c rest hc hd ih =>
    have hc : isWhiteSpace c = true := by simpa using hc
    cases rest
    case nil => simp at hd
    case cons d rest =>
      rw [List.cons_append, List.cons_append, collapse_white_white hc (by simpa using hd)]
      exact ih fun e he => h e (by simpa [List.getLast?_cons] using he)
  case case4 c rest hc hd ih =>
    have hc : isWhiteSpace c = true := by simpa using hc
    have hd : (rest ++ ds).head?.any isWhiteSpace = false := by
      cases rest
      case nil => exact h c rfl hc
      case cons d rest => simpa using hd
    rw [List.cons_append, collapse_white_solid hc hd, ih ?_, List.cons_append]
    intro e he
    exact h e (by simp_all [List.getLast?_cons])

theorem Solid.condensed (h : Solid cs) : Condensed cs where
  space c hc hw := by simp [h c hc] at hw
  single := by
    induction cs
    case nil => exact .nil
    case cons c cs ih =>
      refine List.isChain_cons.mpr ⟨fun d _ hw => ?_, ih (cons_iff.mp h).2⟩
      simp [(cons_iff.mp h).1] at hw

theorem condensed_collapse (cs : List Char) : Condensed (collapse cs) := by
  fun_induction collapse cs
  case case1 => exact Solid.condensed fun c hc => by cases hc
  case case2 c rest hc ih =>
    have hc : isWhiteSpace c = false := by simpa using hc
    refine ⟨List.forall_mem_cons.mpr ⟨by simp [hc], ih.space⟩, ?_⟩
    exact List.isChain_cons.mpr ⟨fun d _ hw => by simp [hc] at hw, ih.single⟩
  case case3 ih => exact ih
  case case4 c rest hc hd ih =>
    refine ⟨List.forall_mem_cons.mpr ⟨fun _ => rfl, ih.space⟩, ?_⟩
    refine List.isChain_cons.mpr ⟨fun d hfirst hw => ?_, ih.single⟩
    -- A space is only written before something else.
    cases rest
    case nil => cases hfirst
    case cons e rest =>
      have he : isWhiteSpace e = false := by simpa using hd
      obtain rfl : e = d := by simpa [collapse_solid_cons he] using hfirst
      simp [he] at hw

theorem Condensed.collapse_eq (h : Condensed cs) : collapse cs = cs := by
  fun_induction collapse cs
  case case1 => rfl
  case case2 c rest hc ih => rw [ih ⟨fun d hd => h.space d (.tail _ hd), h.single.tail⟩]
  case case3 c rest hc hd ih =>
    cases rest
    case nil => simp at hd
    case cons d rest =>
      have := (List.isChain_cons_cons.mp h.single).1
      simp_all
  case case4 c rest hc hd ih =>
    have hspace := h.space c (.head _) (by simpa using hc)
    rw [ih ⟨fun d hd => h.space d (.tail _ hd), h.single.tail⟩, hspace]

theorem Solid.collapse_eq (h : Solid cs) : collapse cs = cs :=
  h.condensed.collapse_eq

theorem collapse_collapse (cs : List Char) : collapse (collapse cs) = collapse cs :=
  (condensed_collapse cs).collapse_eq

theorem collapse_append_left (h : Solid s) : collapse (s ++ cs) = s ++ collapse cs := by
  rw [collapse_append fun c hc hw => ?_, h.collapse_eq]
  simp [h c (List.mem_of_getLast? hc)] at hw

theorem collapse_append_right (h : Solid s) : collapse (cs ++ s) = collapse cs ++ s := by
  rw [collapse_append fun c _ _ => ?_, h.collapse_eq]
  cases s
  case nil => rfl
  case cons d s => simpa using (Solid.cons_iff.mp h).1

theorem solid_of_collapse (h : Solid (collapse cs)) : Solid cs := by
  fun_induction collapse cs
  case case1 => exact h
  case case2 c rest hc ih =>
    exact Solid.cons_iff.mpr ⟨by simpa using hc, ih (Solid.cons_iff.mp h).2⟩
  case case3 c rest hc hd ih =>
    cases rest
    case nil => simp at hd
    case cons d rest =>
      have := (Solid.cons_iff.mp (ih h)).1
      simp_all
  case case4 => cases (Solid.cons_iff.mp h).1

-- Whatever has no white space and starts `ys` also starts `xs`.
def Leads (ys xs : List Char) : Prop :=
  ∀ s, Solid s → s <+: ys → s <+: xs

section Leads

variable {xs ys zs : List Char}

theorem Leads.nil : Leads [] xs := fun _ _ hs =>
  (List.prefix_nil.mp hs) ▸ List.nil_prefix

theorem Leads.space : Leads (' ' :: ys) xs := by
  intro s h hs
  rcases List.prefix_cons_iff.mp hs with rfl | ⟨s, rfl, -⟩
  case inl => exact List.nil_prefix
  case inr => cases (Solid.cons_iff.mp h).1

theorem Leads.of_start (h : Leads ys xs) (hz : zs <+: ys) : Leads zs xs :=
  fun s hs hz' => h s hs (hz'.trans hz)

theorem Leads.cons (h : Leads ys xs) (c : Char) : Leads (c :: ys) (c :: xs) := by
  intro s hs hp
  rcases List.prefix_cons_iff.mp hp with rfl | ⟨s, rfl, hs'⟩
  case inl => exact List.nil_prefix
  case inr => exact List.cons_prefix_cons.mpr ⟨rfl, h s (Solid.cons_iff.mp hs).2 hs'⟩

theorem Leads.append (h : Leads ys xs) (cs : List Char) : Leads (cs ++ ys) (cs ++ xs) := by
  induction cs
  case nil => exact h
  case cons c cs ih => exact ih.cons c

theorem Leads.collapse (h : Leads ys xs) (cs : List Char) :
    Leads (collapse cs ++ ys) (cs ++ xs) := by
  induction cs
  case nil => exact h
  case cons c cs ih =>
    cases hc : isWhiteSpace c
    case false =>
      rw [collapse_solid_cons hc]
      exact ih.cons c
    case true =>
      obtain ⟨ds, hds⟩ : ∃ ds, Prototype.collapse (c :: cs) = ' ' :: ds :=
        exists_collapse_white hc
      rw [hds]
      exact .space

end Leads

theorem prefix_collapse_iff (h : Solid s) : s <+: collapse cs ↔ s <+: cs := by
  constructor
  case mp =>
    intro hs
    have hlead : Leads [] [] := .nil
    simpa using hlead.collapse cs s h (by simpa using hs)
  case mpr =>
    rintro ⟨rest, rfl⟩
    exact ⟨_, (collapse_append_left h).symm⟩

theorem suffix_collapse_iff (h : Solid s) : s <:+ collapse cs ↔ s <:+ cs := by
  constructor
  case mpr =>
    rintro ⟨front, rfl⟩
    exact ⟨_, (collapse_append_right h).symm⟩
  case mp =>
    intro hs
    fun_induction collapse cs
    case case1 => exact hs
    case case2 c rest hc ih =>
      rcases List.suffix_cons_iff.mp hs with rfl | hs
      case inl =>
        -- The whole text is without white space and stays as it is.
        have hrest := solid_of_collapse (Solid.cons_iff.mp h).2
        rw [hrest.collapse_eq]
      case inr => exact (ih hs).trans (List.suffix_cons ..)
    case case3 ih => exact (ih hs).trans (List.suffix_cons ..)
    case case4 ih =>
      rcases List.suffix_cons_iff.mp hs with rfl | hs
      case inl => cases (Solid.cons_iff.mp h).1
      case inr => exact (ih hs).trans (List.suffix_cons ..)

-- White space has no case.
theorem isWhiteSpace_toLower (c : Char) : isWhiteSpace c.toLower = isWhiteSpace c := by
  have hletter {d : Char} (h : 65 ≤ d.toNat ∧ d.toNat ≤ 122) : isWhiteSpace d = false := by
    simp only [isWhiteSpace, Bool.or_eq_false_iff, Bool.and_eq_false_iff, decide_eq_false_iff_not,
      beq_eq_false_iff_ne]
    omega
  unfold Char.toLower
  split
  case isFalse => rfl
  case isTrue hc =>
    have hlow : 65 ≤ c.toNat := UInt32.le_iff_toNat_le.mp hc.1
    have hhigh : c.toNat ≤ 90 := UInt32.le_iff_toNat_le.mp hc.2
    rw [hletter (d := c) (by omega), hletter]
    change 65 ≤ (c.val + ('a'.val - 'A'.val)).toNat ∧ (c.val + ('a'.val - 'A'.val)).toNat ≤ 122
    have hval : c.val.toNat = c.toNat := rfl
    rw [UInt32.toNat_add]
    simp
    omega

theorem condensed_of_map_toLower (h : Condensed (cs.map Char.toLower)) : Condensed cs where
  space c hc hw := by
    have := h.space c.toLower (List.mem_map_of_mem hc) (by rwa [isWhiteSpace_toLower])
    exact eq_of_toLower this (by decide)
  single := by
    refine (List.isChain_map Char.toLower).mp h.single |>.imp fun c d hcd => ?_
    simpa only [isWhiteSpace_toLower] using hcd

theorem isWhiteSpace_of_isSpace (h : Text.isSpace c = true) : isWhiteSpace c = true := by
  simp only [Text.isSpace, Bool.or_eq_true, beq_iff_eq] at h
  rcases h with rfl | rfl <;> decide

def inner (cs : List Char) : List Char :=
  Text.dropEndWhile Text.isSpace (cs.dropWhile Text.isSpace)

theorem exists_inner (cs : List Char) : ∃ before after, cs = before ++ inner cs ++ after ∧
    (∀ c ∈ before, Text.isSpace c = true) ∧ ∀ c ∈ after, Text.isSpace c = true := by
  let back := (cs.dropWhile Text.isSpace).reverse
  refine ⟨cs.takeWhile Text.isSpace, (back.takeWhile Text.isSpace).reverse, ?_,
    fun c hc => List.mem_takeWhile_imp hc,
    fun c hc => List.mem_takeWhile_imp (List.mem_reverse.mp hc)⟩
  rw [inner, Text.dropEndWhile, List.append_assoc, ← List.reverse_append,
    List.takeWhile_append_dropWhile, List.reverse_reverse, List.takeWhile_append_dropWhile]

theorem inner_eq {before after : List Char} (hb : ∀ c ∈ before, Text.isSpace c = true)
    (ha : ∀ c ∈ after, Text.isSpace c = true) (hh : ∀ c ∈ cs.head?, Text.isSpace c = false)
    (hl : ∀ c ∈ cs.getLast?, Text.isSpace c = false) : inner (before ++ cs ++ after) = cs := by
  have hdrop {ds es : List Char} (h : ∀ c ∈ ds.head?, Text.isSpace c = false) (hne : ds ≠ []) :
      (ds ++ es).dropWhile Text.isSpace = ds ++ es := by
    cases ds
    case nil => exact absurd rfl hne
    case cons d ds => simp [h d rfl]
  rw [inner, Text.dropEndWhile, List.append_assoc, List.dropWhile_append_of_pos hb]
  by_cases hne : cs = []
  case pos =>
    rw [hne, List.nil_append, List.dropWhile_eq_nil_iff.mpr ha]
    rfl
  case neg =>
    rw [hdrop hh hne, List.reverse_append, List.dropWhile_append_of_pos (by simpa using ha)]
    have : (cs.reverse ++ []).dropWhile Text.isSpace = cs.reverse ++ [] :=
      hdrop (by simpa using hl) (by simpa using hne)
    rw [List.append_nil] at this
    rw [this, List.reverse_reverse]

-- A direction is a word, or two words with a space between them.
theorem direction_of_isDirection (h : isDirection cs = true) :
    Condensed cs ∧ cs.head?.any (!isWhiteSpace ·) = true ∧
      cs.getLast?.any (!isWhiteSpace ·) = true := by
  rw [isDirection, List.any_eq_true] at h
  obtain ⟨word, hword, h⟩ := h
  have h : word.toList = cs.map Char.toLower := by simpa using h
  have hword : Condensed word.toList ∧ word.toList.head?.any (!isWhiteSpace ·) = true ∧
      word.toList.getLast?.any (!isWhiteSpace ·) = true := by
    simp only [List.mem_cons, List.not_mem_nil, or_false] at hword
    rcases hword with rfl | rfl | rfl | rfl | rfl | rfl | rfl <;>
      exact ⟨⟨by decide, by decide⟩, by decide, by decide⟩
  rw [h] at hword
  simpa [List.head?_map, List.getLast?_map, Option.any_map, Function.comp_def,
    isWhiteSpace_toLower] using And.imp_left condensed_of_map_toLower hword

theorem mem_collapse (h : c ∈ collapse cs) : c = ' ' ∨ c ∈ cs := by
  fun_induction collapse cs <;> grind

theorem isSpace_collapse (h : ∀ c ∈ cs, Text.isSpace c = true) :
    ∀ c ∈ collapse cs, Text.isSpace c = true := fun c hc =>
  (mem_collapse hc).elim (fun hs => hs ▸ rfl) (h c)

theorem isDirection_inner_collapse (h : isDirection (inner cs) = true) :
    isDirection (inner (collapse cs)) = true := by
  obtain ⟨before, after, hcs, hb, ha⟩ := exists_inner cs
  have ⟨hcond, hh, hl⟩ := direction_of_isDirection h
  generalize inner cs = word at h hcs hcond hh hl
  subst hcs
  obtain ⟨c, hc, hcw⟩ := Option.any_eq_true _ _ |>.mp hh
  obtain ⟨d, hd, hdw⟩ := Option.any_eq_true _ _ |>.mp hl
  have hcw : isWhiteSpace c = false := by simpa using hcw
  have hdw : isWhiteSpace d = false := by simpa using hdw
  have hsplit : collapse (before ++ word ++ after) = collapse before ++ word ++ collapse after := by
    rw [collapse_append, collapse_append, hcond.collapse_eq]
    · simp [hc, hcw]
    · intro e he hew
      have : e = d := by simpa [List.getLast?_append, hd] using he.symm
      simp [this, hdw] at hew
  have hspace {e : Char} (he : isWhiteSpace e = false) : Text.isSpace e = false := by
    rw [← Bool.not_eq_true]
    intro hs
    simp [isWhiteSpace_of_isSpace hs] at he
  rw [hsplit, inner_eq (isSpace_collapse hb) (isSpace_collapse ha) (by simp [hc, hspace hcw])
    (by simp [hd, hspace hdw])]
  exact h

theorem isTelling_collapse (h : isTelling cs = true) : isTelling (collapse cs) = true := by
  rw [isTelling, Bool.or_eq_true] at h ⊢
  refine h.imp (fun h => ?_) isDirection_inner_collapse
  simp only [Bool.and_eq_true, decide_eq_true_eq] at h
  obtain ⟨⟨hlen, hh⟩, hl⟩ := h
  obtain ⟨rest, rfl⟩ := List.head?_eq_some_iff.mp hh
  have hne : rest ≠ [] := by
    rintro rfl
    simp at hlen
  rw [List.getLast?_cons_of_ne_nil hne] at hl
  obtain ⟨mid, rfl⟩ := List.getLast?_eq_some_iff.mp hl
  have hlast : ('@' :: (collapse mid ++ ['@'])).getLast? = some '@' := by
    rw [← List.cons_append, List.getLast?_concat]
  rw [collapse_solid_cons (by decide), collapse_append_right (by decide)]
  simp [hlast]

end SourceDocs.Prototype

namespace SourceDocs

def isPunctuation (c : Char) : Bool :=
  0x21 ≤ c.toNat && c.toNat ≤ 0x7e && !c.isAlphanum

def IsPunctuation (s : String) : Prop :=
  s.toList ≠ [] ∧ ∀ c ∈ s.toList, isPunctuation c = true

instance : DecidablePred IsPunctuation := fun _ =>
  inferInstanceAs (Decidable (_ ∧ _))

-- All symbols of comments are punctuation, and so is the line extender, a single character that
-- cannot be part of an identifier.
structure Profile.Punctuated (profile : Profile) : Prop where
  symbols : ∀ s ∈ profile.starters ++ profile.blockComments.map (·.closer), IsPunctuation s
  extender : ∀ s ∈ profile.lineExtender, ∃ c, s.toList = [c] ∧ isPunctuation c = true ∧ c ≠ '_'

theorem ofChar_of_isPunctuation {c : Char} (h : isPunctuation c = true) :
    Token.Kind.ofChar c = .symbol := by
  simp only [isPunctuation, Bool.and_eq_true, decide_eq_true_eq, Bool.not_eq_true'] at h
  obtain ⟨⟨hlow, hhigh⟩, ha⟩ := h
  have hne (d : Char) (hd : d.toNat < 0x21) : (c == d) = false := by
    rw [beq_eq_false_iff_ne]
    rintro rfl
    omega
  simp [Token.Kind.ofChar, ha, show ¬0x7f < c.toNat by omega, hne ' ' (by decide),
    hne '\t' (by decide), hne '\n' (by decide), hne '\r' (by decide)]

theorem isWhiteSpace_of_isPunctuation {c : Char} (h : isPunctuation c = true) :
    Unicode.isWhiteSpace c = false := by
  simp only [isPunctuation, Bool.and_eq_true, decide_eq_true_eq] at h
  simp only [Unicode.isWhiteSpace, Bool.or_eq_false_iff, Bool.and_eq_false_iff,
    decide_eq_false_iff_not, beq_eq_false_iff_ne]
  omega

theorem IsPunctuation.isSymbolic {s : String} (h : IsPunctuation s) : IsSymbolic s :=
  ⟨h.1, fun c hc => ofChar_of_isPunctuation (h.2 c hc)⟩

theorem IsPunctuation.solid {s : String} (h : IsPunctuation s) : Prototype.Solid s.toList :=
  fun c hc => isWhiteSpace_of_isPunctuation (h.2 c hc)

theorem Profile.Punctuated.block {profile : Profile} (hp : profile.Punctuated) {s : BlockSymbols}
    (hs : s ∈ profile.blockComments) : IsPunctuation s.opener ∧ IsPunctuation s.closer :=
  ⟨hp.symbols _ <| List.mem_append_left _ <| List.mem_append_right _ <| List.mem_map_of_mem hs,
    hp.symbols _ <| List.mem_append_right _ <| List.mem_map_of_mem hs⟩

theorem Profile.Punctuated.line {profile : Profile} (hp : profile.Punctuated) {s : String}
    (hs : s ∈ profile.lineComments) : IsPunctuation s :=
  hp.symbols s <| List.mem_append_left _ <| List.mem_append_left _ hs

namespace Prototype

variable {profile : Profile} {comment kept : List Char}

def around? (profile : Profile) (comment : List Char) : Option BlockSymbols :=
  profile.blockComments.find? fun s =>
    s.opener.toList.isPrefixOf comment && s.closer.toList.isSuffixOf comment

theorem keptComment?_eq_some : keptComment? profile comment = some kept ↔
    ∃ s content, around? profile comment = some s ∧ isTelling content = true ∧
      comment = s.opener.toList ++ content ++ s.closer.toList ∧
      kept = s.opener.toList ++ collapse content ++ s.closer.toList := by
  constructor
  case mp =>
    intro h
    simp only [keptComment?, bind, Option.bind_eq_some_iff] at h
    obtain ⟨s, hs, _, htell, hkept⟩ := h
    obtain rfl := Option.some.inj hkept
    rw [Option.guard_eq_some'] at htell
    refine ⟨s, _, hs, htell, ?_, rfl⟩
    have hends := List.find?_some hs
    rw [Bool.and_eq_true, List.isPrefixOf_iff_prefix, List.isSuffixOf_iff_suffix] at hends
    obtain ⟨ho, front, rfl⟩ := hends
    -- The symbols do not overlap, or there would be nothing between them.
    have hle : s.opener.toList.length ≤ front.length := by
      by_contra hlt
      rw [show (front ++ s.closer.toList).length - s.closer.toList.length -
        s.opener.toList.length = 0 by simp; omega, List.take_zero] at htell
      cases htell
    obtain ⟨content, rfl⟩ := List.prefix_of_prefix_length_le ho (List.prefix_append ..) hle
    rw [take_drop_between]
  case mpr =>
    rintro ⟨s, content, hs, htell, rfl, rfl⟩
    simp only [keptComment?, bind, Option.bind_eq_some_iff]
    refine ⟨s, hs, (), ?_, ?_⟩
    · rw [take_drop_between, htell]
      rfl
    · rw [take_drop_between]
      rfl

theorem around?_collapse (hp : profile.Punctuated) (comment : List Char) :
    around? profile (collapse comment) = around? profile comment := by
  refine List.find?_congr fun s hs => ?_
  have ⟨ho, hc⟩ := hp.block hs
  rw [Bool.eq_iff_iff]
  simp only [Bool.and_eq_true, List.isPrefixOf_iff_prefix, List.isSuffixOf_iff_suffix,
    prefix_collapse_iff ho.solid, suffix_collapse_iff hc.solid]

theorem keptComment?_collapse (hp : profile.Punctuated)
    (h : keptComment? profile comment = some kept) :
    kept = collapse comment ∧ keptComment? profile kept = some kept := by
  obtain ⟨s, content, hs, htell, rfl, rfl⟩ := keptComment?_eq_some.mp h
  have ⟨ho, hc⟩ := hp.block (List.mem_of_find?_eq_some hs)
  have heq : collapse (s.opener.toList ++ content ++ s.closer.toList) =
      s.opener.toList ++ collapse content ++ s.closer.toList := by
    rw [collapse_append_right hc.solid, collapse_append_left ho.solid]
  refine ⟨heq.symm, keptComment?_eq_some.mpr ⟨s, collapse content, ?_, isTelling_collapse htell,
    rfl, by rw [collapse_collapse]⟩⟩
  rw [← heq, around?_collapse hp, hs]

theorem opener_of_keptComment? (h : keptComment? profile comment = some kept) :
    ∃ s ∈ profile.blockComments, s.opener.toList <+: comment := by
  obtain ⟨s, content, hs, -, rfl, -⟩ := keptComment?_eq_some.mp h
  exact ⟨s, List.mem_of_find?_eq_some hs, by rw [List.append_assoc]; exact List.prefix_append ..⟩

theorem head?_keptComment? (hp : profile.Punctuated)
    (h : keptComment? profile comment = some kept) :
    kept.head?.any Unicode.isWhiteSpace = false := by
  obtain ⟨s, content, hs, -, -, rfl⟩ := keptComment?_eq_some.mp h
  have ho := (hp.block (List.mem_of_find?_eq_some hs)).1
  obtain ⟨c, cs, hc⟩ := List.exists_cons_of_ne_nil ho.1
  simp [hc, ho.solid c (by simp [hc])]

theorem getLast?_keptComment? (hp : profile.Punctuated)
    (h : keptComment? profile comment = some kept) :
    ∃ c ∈ kept.getLast?, Unicode.isWhiteSpace c = false := by
  obtain ⟨s, content, hs, -, -, rfl⟩ := keptComment?_eq_some.mp h
  have hc := (hp.block (List.mem_of_find?_eq_some hs)).2
  have hlast := List.getLast?_eq_some_getLast hc.1
  refine ⟨_, by rw [List.getLast?_append_of_ne_nil _ hc.1, hlast]; rfl, ?_⟩
  exact hc.solid _ (List.getLast_mem hc.1)

end Prototype
end SourceDocs

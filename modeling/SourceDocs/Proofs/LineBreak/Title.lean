import SourceDocs.Proofs.LineBreak.Text
import SourceDocs.Proofs.Trim

namespace SourceDocs

open Unicode

variable {b : LineBreak} {c : Char} {cs ds : List Char}

theorem toNat_ofNat_or (n : Nat) : (Char.ofNat n).toNat = n ∨ (Char.ofNat n).toNat = 0 := by
  unfold Char.ofNat
  split
  · exact .inl rfl
  · exact .inr rfl

-- The characters that change with the case are letters before and after.
theorem eq_of_lowercaseChar {d : Char} (h : lowercaseChar c = d) (hd : d.toNat < 0x20)
    (hpos : 0 < d.toNat) : c = d := by
  have hruns : ∀ r ∈ lowercaseRuns, 0x20 ≤ (r.first : Int) + r.offset := by decide +kernel
  unfold lowercaseChar at h
  split at h
  case isTrue => exact eq_of_toLower h (by omega)
  case isFalse hc =>
    split at h
    case h_2 => exact h
    case h_1 r hr =>
      have hle := hruns r (List.mem_of_find?_eq_some hr)
      have hin := List.find?_some hr
      simp only [CaseRun.contains, Bool.and_eq_true, decide_eq_true_eq] at hin
      subst h
      rcases toNat_ofNat_or (c.toNat + r.offset).toNat with h | h <;> omega

theorem unbroken_lowercaseIn (before after : List Char) (hc : c ≠ '\n') (hc' : c ≠ '\r') :
    Unbroken (lowercaseIn before c after) := by
  unfold lowercaseIn
  split
  case isTrue => decide
  case isFalse =>
    split
    case isTrue => split <;> decide
    case isFalse =>
      intro d hd
      obtain rfl := List.mem_singleton.mp hd
      exact ⟨fun h => hc (eq_of_lowercaseChar h (by decide) (by decide)),
        fun h => hc' (eq_of_lowercaseChar h (by decide) (by decide))⟩

theorem unbroken_lowercase (h : Unbroken cs) : Unbroken (lowercase cs) := by
  -- The text before a character grows as the text is gone through.
  have hgo (before : List Char) : Unbroken (lowercase.go before cs) := by
    induction cs generalizing before
    case nil => exact unbroken_nil
    case cons c cs hi =>
      have ⟨hc, hc'⟩ := h c (.head _)
      exact (unbroken_lowercaseIn before cs hc hc').append (hi h.tail _)
  exact hgo []

theorem meetsCased_cons (c : Char) (cs : List Char) :
    meetsCased (c :: cs) = if isCaseIgnorable c then meetsCased cs else isCased c := by
  unfold meetsCased
  rw [List.dropWhile_cons]
  by_cases hc : isCaseIgnorable c = true
  case pos => rw [if_pos hc, if_pos hc]
  case neg => rw [if_neg hc, if_neg hc]

-- A line break is not ignored, and it has no case.
theorem meetsCased_breaks_append (hds : ∀ c ∈ ds, c = '\n' ∨ c = '\r') (hne : ds ≠ []) :
    meetsCased (ds ++ cs) = false := by
  obtain ⟨c, ds, rfl⟩ := List.exists_cons_of_ne_nil hne
  rw [List.cons_append, meetsCased_cons]
  rcases hds c (.head _) with rfl | rfl <;> rfl

theorem meetsCased_rewrite (b : LineBreak) (cs : List Char) :
    meetsCased (b.rewrite cs) = meetsCased cs := by
  induction cs
  case nil => rfl
  case cons c cs hi =>
    by_cases hc : c = '\n'
    case neg => rw [b.rewrite_cons hc, meetsCased_cons, hi, meetsCased_cons]
    case pos =>
      subst hc
      rw [b.rewrite_feed, meetsCased_breaks_append b.mem b.ne_nil, meetsCased_cons]
      rfl

theorem lowercaseIn_congr {before before' after after' : List Char}
    (h : meetsCased before = meetsCased before') (h' : meetsCased after = meetsCased after') :
    lowercaseIn before c after = lowercaseIn before' c after' := by
  unfold lowercaseIn
  rw [h, h']

theorem lowercaseIn_break (before after : List Char) (hc : c = '\n' ∨ c = '\r') :
    lowercaseIn before c after = [c] := by
  rcases hc with rfl | rfl <;> rfl

theorem lowercase_go_breaks_append (before : List Char) (hds : ∀ c ∈ ds, c = '\n' ∨ c = '\r') :
    lowercase.go before (ds ++ cs) = ds ++ lowercase.go (ds.reverse ++ before) cs := by
  induction ds generalizing before
  case nil => rfl
  case cons d ds hi =>
    rw [List.cons_append, lowercase.go, lowercaseIn_break _ _ (hds d (.head _)),
      hi _ fun c hc => hds c (.tail _ hc), List.reverse_cons, List.append_assoc]
    rfl

-- No word goes on over a line break, and so all of them end it alike.
theorem lowercase_go_rewrite (b : LineBreak) {before before' : List Char}
    (h : meetsCased before' = meetsCased before) :
    lowercase.go before' (b.rewrite cs) = b.rewrite (lowercase.go before cs) := by
  induction cs generalizing before before'
  case nil => rfl
  case cons c cs hi =>
    by_cases hc : c = '\n'
    case neg =>
      have hcons : meetsCased (c :: before') = meetsCased (c :: before) := by
        rw [meetsCased_cons, h, meetsCased_cons]
      -- A carriage return of the text stays, but it is no line feed either.
      have hself : b.rewrite (lowercaseIn before c cs) = lowercaseIn before c cs := by
        by_cases hc' : c = '\r'
        case pos =>
          rw [lowercaseIn_break _ _ (.inr hc'), hc']
          exact b.rewrite_eq_self (by decide)
        case neg => exact b.rewrite_unbroken (unbroken_lowercaseIn before cs hc hc')
      rw [b.rewrite_cons hc, lowercase.go, lowercaseIn_congr h (meetsCased_rewrite b cs), hi hcons,
        lowercase.go, b.rewrite_append, hself]
    case pos =>
      subst hc
      -- Behind the line break both texts before it count for nothing.
      have hend : meetsCased (b.chars.reverse ++ before') = meetsCased ('\n' :: before) := by
        rw [meetsCased_breaks_append (by simpa using b.mem) (by simpa using b.ne_nil),
          meetsCased_cons]
        rfl
      rw [b.rewrite_feed, lowercase_go_breaks_append _ b.mem, hi hend, lowercase.go,
        lowercaseIn_break _ _ (.inl rfl)]
      rfl

theorem lowercase_rewrite (b : LineBreak) (cs : List Char) :
    lowercase (b.rewrite cs) = b.rewrite (lowercase cs) :=
  lowercase_go_rewrite b rfl

open Prototype

theorem joinOperators_cons (h : ((c :: cs).take 8).map Char.toLower ≠ "operator".toList) :
    joinOperators (c :: cs) = c :: joinOperators cs := by
  rw [joinOperators, if_neg h]

theorem joinOperators_sign {sign : Char} {after : List Char}
    (h : (cs.take 8).map Char.toLower = "operator".toList)
    (hs : operatorSign? (cs.drop 8) = some (sign, after)) :
    joinOperators cs = cs.take 8 ++ sign :: joinOperators after := by
  cases cs
  case nil => cases h
  case cons c rest =>
    rw [joinOperators, if_pos h]
    split
    case h_1 h' => cases hs.symm.trans h'; rfl
    case h_2 h' => cases hs.symm.trans h'

theorem joinOperators_no_sign (hs : operatorSign? ((c :: cs).drop 8) = none) :
    joinOperators (c :: cs) = c :: joinOperators cs := by
  rw [joinOperators]
  split
  case isTrue =>
    split
    case h_1 h' => cases hs.symm.trans h'
    case h_2 => rfl
  case isFalse => rfl

-- No operator starts with a line break.
theorem joinOperators_breaks_append (hds : ∀ c ∈ ds, c = '\n' ∨ c = '\r') :
    joinOperators (ds ++ cs) = ds ++ joinOperators cs := by
  induction ds
  case nil => rfl
  case cons d ds hi =>
    rw [List.cons_append, joinOperators_cons, hi fun c hc => hds c (.tail _ hc), List.cons_append]
    rw [List.take_succ_cons, List.map_cons]
    intro h
    have hd := (List.cons.inj h).1
    rcases hds d (.head _) with rfl | rfl <;> revert hd <;> decide

-- What starts a word is found in the same place.
theorem take_rewrite (b : LineBreak) {n : Nat} (h : '\n' ∉ cs.take n) :
    (b.rewrite cs).take n = cs.take n ∧ (b.rewrite cs).drop n = b.rewrite (cs.drop n) := by
  induction cs generalizing n
  case nil => simp [b.rewrite_nil]
  case cons c cs hi =>
    cases n
    case zero => simp
    case succ n =>
      simp only [List.take_succ_cons, List.mem_cons, not_or] at h
      have ⟨htake, hdrop⟩ := hi h.2
      rw [b.rewrite_cons (Ne.symm h.1), List.take_succ_cons, List.take_succ_cons,
        List.drop_succ_cons, List.drop_succ_cons, htake, hdrop]
      exact ⟨rfl, rfl⟩

theorem unbroken_of_take_rewrite (b : LineBreak) {n : Nat} (h : Unbroken ((b.rewrite cs).take n)) :
    '\n' ∉ cs.take n := by
  induction cs generalizing n
  case nil => simp
  case cons c cs hi =>
    cases n
    case zero => simp
    case succ n =>
      by_cases hc : c = '\n'
      case pos =>
        obtain ⟨d, ds, hchars, hd⟩ := b.exists_chars
        subst hc
        rw [b.rewrite_feed, hchars, List.cons_append, List.take_succ_cons] at h
        have := h d (.head _)
        rcases hd with rfl | rfl <;> simp at this
      case neg =>
        rw [b.rewrite_cons hc, List.take_succ_cons] at h
        rw [List.take_succ_cons, List.mem_cons, not_or]
        exact ⟨Ne.symm hc, hi fun d hd => h d (.tail _ hd)⟩

theorem unbroken_of_map_toLower {w : List Char} (h : cs.map Char.toLower = w) (hw : Unbroken w) :
    Unbroken cs := by
  subst h
  intro c hc
  have hlow := hw _ (List.mem_map_of_mem hc)
  constructor <;>
  · rintro rfl
    simp at hlow

theorem take_rewrite_iff (b : LineBreak) {n : Nat} {w : List Char} (hw : Unbroken w) :
    ((b.rewrite cs).take n).map Char.toLower = w ↔ (cs.take n).map Char.toLower = w := by
  constructor
  case mp =>
    intro h
    rwa [(take_rewrite b (unbroken_of_take_rewrite b (unbroken_of_map_toLower h hw))).1] at h
  case mpr =>
    intro h
    rwa [(take_rewrite b fun hm => (unbroken_of_map_toLower h hw _ hm).1 rfl).1]

-- Of a line break in the place of a sign only the first character is taken.
theorem operatorSign?_rewrite (b : LineBreak) (cs : List Char) :
    operatorSign? (b.rewrite cs) =
      (operatorSign? cs).map fun s =>
        if s.1 = '\n' then (b.chars.head b.ne_nil, b.chars.tail ++ b.rewrite s.2)
        else (s.1, b.rewrite s.2) := by
  have hspaces : ∀ c ∈ cs.takeWhile Text.isSpace, c ≠ '\n' ∧ c ≠ '\r' := by
    intro c hc
    have hs := List.mem_takeWhile_imp hc
    constructor <;> (rintro rfl; revert hs; decide)
  unfold operatorSign?
  rw [b.takeWhile_rewrite rfl, b.dropWhile_rewrite rfl, b.rewrite_unbroken hspaces]
  generalize cs.takeWhile Text.isSpace = spaces at hspaces
  generalize cs.dropWhile Text.isSpace = rest
  have hlast : ∀ d ∈ spaces.getLast?, d ≠ '\n' := fun d hd =>
    (hspaces d (List.mem_of_mem_getLast? hd)).1
  cases spaces
  case nil => rfl
  case cons space spaces =>
    cases rest
    case nil =>
      simp only [b.rewrite_nil]
      split
      case isTrue => cases hl : (space :: spaces).getLast? <;> simp_all [b.rewrite_nil]
      case isFalse => rfl
    case cons c rest =>
      by_cases hc : c = '\n'
      case pos =>
        subst hc
        obtain ⟨d, ds, hchars, hd⟩ := b.exists_chars
        have hword : isWordChar d = false := by rcases hd with rfl | rfl <;> decide
        simp [b.rewrite_feed, hchars, hword, show isWordChar '\n' = false by decide]
      case neg =>
        simp only [b.rewrite_cons hc]
        split
        case isTrue => simp [hc]
        case isFalse =>
          split
          case isTrue => cases hl : (space :: spaces).getLast? <;> simp_all [b.rewrite_cons hc]
          case isFalse => rfl

theorem joinOperators_rewrite (b : LineBreak) (cs : List Char) :
    joinOperators (b.rewrite cs) = b.rewrite (joinOperators cs) := by
  have hword : Unbroken "operator".toList := by decide
  fun_induction joinOperators cs
  case case1 => rw [b.rewrite_nil, joinOperators]
  case case2 c rest h sign after hs ih =>
    have hlead := unbroken_of_map_toLower h hword
    have ⟨htake, hdrop⟩ := take_rewrite b fun hm => (hlead _ hm).1 rfl
    have hsign := operatorSign?_rewrite b ((c :: rest).drop 8)
    rw [hs, Option.map_some, ← hdrop] at hsign
    have h' := (take_rewrite_iff b hword).mpr h
    by_cases hc : sign = '\n'
    case neg =>
      simp only [if_neg hc] at hsign
      rw [joinOperators_sign h' hsign, htake, ih, b.rewrite_append, b.rewrite_unbroken hlead,
        b.rewrite_cons hc]
    case pos =>
      -- The operator takes the first character of the line break. The others come right behind it.
      have htail : ∀ c ∈ b.chars.tail, c = '\n' ∨ c = '\r' :=
        fun c hc => b.mem c (List.mem_of_mem_tail hc)
      simp only [if_pos hc] at hsign
      rw [joinOperators_sign h' hsign, htake, joinOperators_breaks_append htail, ih,
        b.rewrite_append, b.rewrite_unbroken hlead, hc, b.rewrite_feed, ← List.cons_append,
        List.cons_head_tail]
  case case3 c rest h hs ih =>
    -- Where the word has no sign behind it, it has none in the other text either.
    have ⟨_, hdrop⟩ := take_rewrite b fun hm => (unbroken_of_map_toLower h hword _ hm).1 rfl
    have hsign := operatorSign?_rewrite b ((c :: rest).drop 8)
    rw [hs, Option.map_none, ← hdrop] at hsign
    have hc : c ≠ '\n' := (unbroken_of_map_toLower h hword c (.head _)).1
    rw [b.rewrite_cons hc] at hsign ⊢
    rw [joinOperators_no_sign hsign, ih, b.rewrite_cons hc]
  case case4 c rest h ih =>
    by_cases hc : c = '\n'
    case pos => rw [hc, b.rewrite_feed, joinOperators_breaks_append b.mem, ih, b.rewrite_feed]
    case neg =>
      have h' := mt (take_rewrite_iff b hword).mp h
      rw [b.rewrite_cons hc] at h' ⊢
      rw [joinOperators_cons h', ih, b.rewrite_cons hc]

theorem subset_of_operatorSign? {sign : Char} {after : List Char}
    (h : operatorSign? cs = some (sign, after)) : sign :: after ⊆ cs := by
  have hrest : cs.dropWhile Text.isSpace ⊆ cs := (List.dropWhile_sublist _).subset
  have hspaces : cs.takeWhile Text.isSpace ⊆ cs := (List.takeWhile_sublist _).subset
  have hlast {c : Char} (hc : c ∈ (cs.takeWhile Text.isSpace).getLast?) : c ∈ cs :=
    hspaces (List.mem_of_mem_getLast? hc)
  unfold operatorSign? at h
  grind

theorem joinOperators_subset (cs : List Char) : joinOperators cs ⊆ cs := by
  fun_induction joinOperators cs
  case case1 => exact List.Subset.refl _
  case case2 c rest h sign after hs ih =>
    have hsign := subset_of_operatorSign? hs
    have hdrop : (c :: rest).drop 8 ⊆ c :: rest := (List.drop_sublist ..).subset
    refine List.append_subset.mpr ⟨(List.take_sublist ..).subset, List.cons_subset.mpr ⟨?_, ?_⟩⟩
    · exact hdrop (hsign (.head _))
    · exact fun d hd => hdrop (hsign (.tail _ (ih hd)))
  case case3 ih => exact List.cons_subset_cons _ ih
  case case4 ih => exact List.cons_subset_cons _ ih

theorem dropEndWhile_subset (p : Char → Bool) (cs : List Char) : Text.dropEndWhile p cs ⊆ cs := by
  intro c hc
  have := (List.dropWhile_sublist p).subset (List.mem_reverse.mp hc)
  exact List.mem_reverse.mp this

theorem subset_of_openingOf? {closers back before : List Char} {opener : Char}
    (h : Symbol.openingOf? closers back = some (opener, before)) : before ⊆ back := by
  fun_induction Symbol.openingOf? closers back
  all_goals grind

theorem splitParameters_subset (cs : List Char) : (Symbol.splitParameters cs).1 ⊆ cs := by
  unfold Symbol.splitParameters
  split
  case h_2 => exact List.Subset.refl _
  case h_1 before hb =>
    -- What comes before the parameters is found from the end of the text backwards.
    refine List.Subset.trans (dropEndWhile_subset _ _) ?_
    unfold Symbol.beforeParameters? at hb
    split at hb
    case h_1 => cases hb
    case h_2 last back hback =>
      have hsub : back ⊆ cs := fun c hc => dropEndWhile_subset _ _
        (List.mem_reverse.mp (hback ▸ List.mem_cons_of_mem _ hc))
      split at hb
      case isFalse => cases hb
      case isTrue =>
        split at hb
        case h_1 => cases hb
        case h_2 opener before' ho =>
          have hopening := subset_of_openingOf? ho
          split at hb
          case isTrue => cases hb
          case isFalse =>
            split at hb
            case isTrue => cases hb
            case isFalse =>
              cases hb
              exact fun c hc => hsub (hopening (List.mem_reverse.mp hc))

theorem subset_of_afterQualifiers? {before : Option Char}
    (h : afterQualifiers? before cs = some ds) : ds ⊆ cs := by
  induction cs generalizing before
  case nil => cases h
  case cons c rest hi =>
    rw [afterQualifiers?, Option.or_eq_some_iff] at h
    rcases h with h | ⟨-, h⟩
    case inl => exact List.Subset.trans (hi h) (List.subset_cons_self ..)
    case inr =>
      split at h
      case isTrue =>
        cases h
        exact List.subset_cons_self ..
      case isFalse => cases h

theorem withoutSigil_subset (cs : List Char) : withoutSigil cs ⊆ cs := by
  unfold withoutSigil
  grind

theorem undecorated_subset (title : List Char) : undecorated title ⊆ title := by
  have hname : (Symbol.splitParameters (Text.trim title)).1 ⊆ title :=
    List.Subset.trans (splitParameters_subset _) (Text.trim_isInfix title).subset
  unfold undecorated
  refine List.Subset.trans (withoutSigil_subset _) (List.Subset.trans (Text.trim_isInfix _).subset ?_)
  cases hq : afterQualifiers? none (Symbol.splitParameters (Text.trim title)).1
  case none => exact hname
  case some => exact List.Subset.trans (subset_of_afterQualifiers? hq) hname

theorem titleMatches_rewrite (b : LineBreak) {title : List Char} (h : Unbroken title)
    (code : List Char) : titleMatches title (b.rewrite code) = titleMatches title code := by
  have htitle := unbroken_lowercase (h.subset (undecorated_subset title))
  have hjoined := htitle.subset (joinOperators_subset _)
  have hproto : Unbroken ".prototype.".toList := by decide
  -- All that is looked for in the code is made from the title, but for `.prototype.`.
  unfold titleMatches
  dsimp only
  rw [lowercase_rewrite, b.contains_rewrite htitle, joinOperators_rewrite,
    b.contains_rewrite hjoined, b.contains_rewrite hproto,
    b.replaceFirst_rewrite hproto (by decide) (by decide), b.contains_rewrite htitle]

end SourceDocs

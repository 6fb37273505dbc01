import SourceDocs.Proofs.Token
import SourceDocs.Prototype.Normalize
import SourceDocs.Prototype.Title

namespace SourceDocs

structure LineBreak where
  chars : List Char
  ne_nil : chars ≠ []
  mem : ∀ c ∈ chars, c = '\n' ∨ c = '\r'

def Unbroken (cs : List Char) : Prop :=
  ∀ c ∈ cs, c ≠ '\n' ∧ c ≠ '\r'

instance : DecidablePred Unbroken := fun _ =>
  inferInstanceAs (Decidable (∀ _ ∈ _, _))

theorem unbroken_nil : Unbroken [] := fun _ h => nomatch h

theorem Unbroken.subset {cs ds : List Char} (h : Unbroken cs) (hs : ds ⊆ cs) : Unbroken ds :=
  fun c hc => h c (hs hc)

theorem Unbroken.append {cs ds : List Char} (h : Unbroken cs) (h' : Unbroken ds) :
    Unbroken (cs ++ ds) := fun c hc =>
  (List.mem_append.mp hc).elim (h c) (h' c)

theorem Unbroken.tail {c : Char} {cs : List Char} (h : Unbroken (c :: cs)) : Unbroken cs :=
  h.subset (List.subset_cons_self ..)

theorem Unbroken.head_ne {c d : Char} {cs : List Char} (h : Unbroken (c :: cs))
    (hd : d = '\n' ∨ d = '\r') : c ≠ d := by
  have ⟨hn, hr⟩ := h c (.head _)
  rcases hd with rfl | rfl <;> assumption

-- Only letters are the lower case of something else.
theorem eq_of_toLower {c d : Char} (h : c.toLower = d) (hd : d.toNat < 0x61) : c = d := by
  unfold Char.toLower at h
  split at h
  case isFalse => exact h
  case isTrue hc =>
    -- A letter becomes a lower case letter, and none of these is below `a`.
    subst h
    have hlow := UInt32.le_iff_toNat_le.mp hc.1
    have hhigh := UInt32.le_iff_toNat_le.mp hc.2
    change (c.val + ('a'.val - 'A'.val)).toNat < 0x61 at hd
    rw [UInt32.toNat_add] at hd
    simp at hlow hhigh hd
    omega

namespace LineBreak

def crlf : LineBreak := ⟨['\r', '\n'], by decide, by decide⟩

def cr : LineBreak := ⟨['\r'], by decide, by decide⟩

variable (b : LineBreak) {c : Char} {cs needle : List Char} {p : Char → Bool}

-- The text with this line break for every line feed.
def rewrite (cs : List Char) : List Char :=
  cs.flatMap fun c => if c = '\n' then b.chars else [c]

def reverse : LineBreak :=
  ⟨b.chars.reverse, by simp [b.ne_nil], by simpa using b.mem⟩

theorem rewrite_nil : b.rewrite [] = [] :=
  rfl

theorem rewrite_feed : b.rewrite ('\n' :: cs) = b.chars ++ b.rewrite cs :=
  rfl

theorem rewrite_cons (h : c ≠ '\n') : b.rewrite (c :: cs) = c :: b.rewrite cs := by
  simp [rewrite, h]

theorem rewrite_append (cs ds : List Char) :
    b.rewrite (cs ++ ds) = b.rewrite cs ++ b.rewrite ds :=
  List.flatMap_append

theorem rewrite_eq_self (h : '\n' ∉ cs) : b.rewrite cs = cs := by
  induction cs
  case nil => rfl
  case cons c cs hi =>
    simp only [List.mem_cons, not_or] at h
    rw [rewrite_cons b (Ne.symm h.1), hi h.2]

theorem rewrite_unbroken (h : Unbroken cs) : b.rewrite cs = cs :=
  b.rewrite_eq_self fun hm => (h _ hm).1 rfl

theorem exists_chars : ∃ c cs, b.chars = c :: cs ∧ (c = '\n' ∨ c = '\r') := by
  obtain ⟨c, cs, h⟩ := List.exists_cons_of_ne_nil b.ne_nil
  exact ⟨c, cs, h, b.mem c (h ▸ .head _)⟩

theorem unbroken_of_rewrite (h : Unbroken (b.rewrite cs)) : Unbroken cs := by
  induction cs
  case nil => exact unbroken_nil
  case cons c cs hi =>
    by_cases hc : c = '\n'
    case neg =>
      rw [b.rewrite_cons hc] at h
      exact List.forall_mem_cons.mpr ⟨h c (.head _), hi fun d hd => h d (.tail _ hd)⟩
    case pos =>
      obtain ⟨d, ds, hchars, hd⟩ := b.exists_chars
      rw [hc, b.rewrite_feed, hchars] at h
      exact absurd rfl (h.head_ne hd)

theorem rewrite_eq_nil : b.rewrite cs = [] ↔ cs = [] := by
  cases cs
  case nil => simp [rewrite_nil]
  case cons c cs =>
    by_cases hc : c = '\n'
    case pos => simp [hc, rewrite_feed, b.ne_nil]
    case neg => simp [rewrite_cons b hc]

theorem isEmpty_rewrite : (b.rewrite cs).isEmpty = cs.isEmpty := by
  rw [Bool.eq_iff_iff, List.isEmpty_iff, List.isEmpty_iff, rewrite_eq_nil]

-- The characters of the line break stand in reverse order as well.
theorem reverse_rewrite : (b.rewrite cs).reverse = b.reverse.rewrite cs.reverse := by
  induction cs
  case nil => rfl
  case cons c cs hi =>
    rw [List.reverse_cons, rewrite_append, ← hi]
    by_cases hc : c = '\n'
    case pos => simp [hc, rewrite, reverse]
    case neg => simp [rewrite_cons _ hc, rewrite_nil]

section Classes

-- What makes no difference between the two characters sees the same in every line break, whatever
-- its length.
variable (hp : p '\n' = p '\r')

include hp

theorem all_chars {q : Bool} (hq : p '\n' = q) : ∀ c ∈ b.chars, p c = q := by
  intro c hc
  rcases b.mem c hc with rfl | rfl
  · exact hq
  · exact hp ▸ hq

theorem dropWhile_rewrite : (b.rewrite cs).dropWhile p = b.rewrite (cs.dropWhile p) := by
  induction cs
  case nil => rfl
  case cons c cs hi =>
    by_cases hc : c = '\n'
    case neg =>
      rw [rewrite_cons b hc, List.dropWhile_cons, List.dropWhile_cons, hi]
      split
      · rfl
      · exact (rewrite_cons b hc).symm
    case pos =>
      subst hc
      have hall := b.all_chars hp rfl
      cases hq : p '\n'
      case true =>
        rw [rewrite_feed, List.dropWhile_append_of_pos (by simpa [hq] using hall), hi,
          List.dropWhile_cons, if_pos hq]
      case false =>
        have ⟨c, ds, hchars, _⟩ := b.exists_chars
        have hc := hall c (by simp [hchars])
        simp [rewrite_feed, hchars, hq, hc]

theorem takeWhile_rewrite : (b.rewrite cs).takeWhile p = b.rewrite (cs.takeWhile p) := by
  induction cs
  case nil => rfl
  case cons c cs hi =>
    by_cases hc : c = '\n'
    case neg =>
      rw [rewrite_cons b hc, List.takeWhile_cons, List.takeWhile_cons, hi]
      split
      · exact (rewrite_cons b hc).symm
      · rfl
    case pos =>
      subst hc
      have hall := b.all_chars hp rfl
      cases hq : p '\n'
      case true =>
        rw [rewrite_feed, List.takeWhile_append_of_pos (by simpa [hq] using hall), hi,
          List.takeWhile_cons, if_pos hq, rewrite_feed]
      case false =>
        have ⟨c, ds, hchars, _⟩ := b.exists_chars
        have hc := hall c (by simp [hchars])
        simp [rewrite_feed, hchars, hq, hc, rewrite_nil]

theorem any_head?_rewrite : (b.rewrite cs).head?.any p = cs.head?.any p := by
  cases cs
  case nil => rfl
  case cons c cs =>
    by_cases hc : c = '\n'
    case neg => simp [rewrite_cons b hc]
    case pos =>
      subst hc
      have ⟨c, ds, hchars, _⟩ := b.exists_chars
      have hc := b.all_chars hp rfl c (by simp [hchars])
      simp [rewrite_feed, hchars, hc]

theorem dropEndWhile_rewrite :
    Text.dropEndWhile p (b.rewrite cs) = b.rewrite (Text.dropEndWhile p cs) := by
  have hback : b.reverse.reverse = b := by simp [reverse]
  rw [Text.dropEndWhile, reverse_rewrite, dropWhile_rewrite _ hp, reverse_rewrite, hback,
    Text.dropEndWhile]

end Classes

theorem head?_rewrite (hc : c ≠ '\n') (hc' : c ≠ '\r') :
    (b.rewrite cs).head? = some c ↔ cs.head? = some c := by
  have h : (b.rewrite cs).head?.any (· = c) = cs.head?.any (· = c) :=
    b.any_head?_rewrite (by simp [hc.symm, hc'.symm])
  simpa [Option.any_eq_true] using Bool.eq_iff_iff.mp h

theorem getLast?_rewrite (hc : c ≠ '\n') (hc' : c ≠ '\r') :
    (b.rewrite cs).getLast? = some c ↔ cs.getLast? = some c := by
  rw [← List.head?_reverse, reverse_rewrite, head?_rewrite _ hc hc', List.head?_reverse]

theorem trimStart_rewrite : Text.trimStart (b.rewrite cs) = b.rewrite (Text.trimStart cs) :=
  b.dropWhile_rewrite rfl

theorem trimEnd_rewrite : Text.trimEnd (b.rewrite cs) = b.rewrite (Text.trimEnd cs) :=
  b.dropEndWhile_rewrite rfl

theorem trim_rewrite : Text.trim (b.rewrite cs) = b.rewrite (Text.trim cs) := by
  rw [Text.trim, trimStart_rewrite, trimEnd_rewrite, Text.trim]

-- A run of white space becomes one space, whatever it consists of.
theorem collapse_rewrite : Prototype.collapse (b.rewrite cs) = Prototype.collapse cs := by
  induction cs
  case nil => rfl
  case cons c cs hi =>
    have hhead : (b.rewrite cs).head?.any Unicode.isWhiteSpace =
        cs.head?.any Unicode.isWhiteSpace := b.any_head?_rewrite rfl
    by_cases hc : c = '\n'
    case neg => rw [rewrite_cons b hc, Prototype.collapse, hi, hhead, Prototype.collapse]
    case pos =>
      subst hc
      have hspace : Unicode.isWhiteSpace '\n' = true := by decide
      have hwhite : ∀ c ∈ b.chars, Unicode.isWhiteSpace c = true := b.all_chars rfl hspace
      -- A line break of two characters is a run on its own, and only its last one is kept.
      have hrun {ds : List Char} (hne : ds ≠ []) (hds : ∀ c ∈ ds, Unicode.isWhiteSpace c = true) :
          Prototype.collapse (ds ++ b.rewrite cs) = Prototype.collapse ('\n' :: cs) := by
        induction ds
        case nil => exact absurd rfl hne
        case cons d ds hi' =>
          have hd := hds d (.head _)
          cases ds
          case nil => simp [Prototype.collapse, hd, hhead, hi, hspace]
          case cons d' ds =>
            have hd' := hds d' (by simp)
            rw [← hi' (by simp) fun c hc => hds c (.tail _ hc)]
            simp [Prototype.collapse, hd, hd']
      exact hrun b.ne_nil hwhite

theorem isPrefixOf_rewrite (hn : Unbroken needle) :
    needle.isPrefixOf (b.rewrite cs) = needle.isPrefixOf cs := by
  induction needle generalizing cs
  case nil => simp
  case cons d needle hi =>
    cases cs
    case nil => rfl
    case cons c cs =>
      by_cases hc : c = '\n'
      case neg =>
        rw [rewrite_cons b hc, List.isPrefixOf_cons_cons, List.isPrefixOf_cons_cons, hi hn.tail]
      case pos =>
        -- The literal goes on with no line break, and so neither text has it here.
        subst hc
        obtain ⟨c, ds, hchars, hc⟩ := b.exists_chars
        rw [rewrite_feed, hchars, List.cons_append, List.isPrefixOf_cons_cons,
          List.isPrefixOf_cons_cons, beq_false_of_ne (hn.head_ne hc),
          beq_false_of_ne (hn.head_ne (.inl rfl)), Bool.false_and, Bool.false_and]

theorem isSuffixOf_rewrite (hn : Unbroken needle) :
    needle.isSuffixOf (b.rewrite cs) = needle.isSuffixOf cs := by
  have hr : Unbroken needle.reverse := fun c hc => hn c (List.mem_reverse.mp hc)
  rw [List.isSuffixOf, reverse_rewrite, isPrefixOf_rewrite _ hr, List.isSuffixOf]

theorem drop_rewrite (h : needle <+: cs) (hn : Unbroken needle) :
    (b.rewrite cs).drop needle.length = b.rewrite (cs.drop needle.length) := by
  obtain ⟨rest, rfl⟩ := h
  rw [rewrite_append, b.rewrite_unbroken hn, List.drop_left, List.drop_left]

-- Line breaks hold no part of the literal, and so it is found behind them or not at all.
theorem contains_chars_append (hn : Unbroken needle) {ds : List Char}
    (hds : ∀ c ∈ ds, c = '\n' ∨ c = '\r') :
    Text.contains needle (ds ++ cs) = Text.contains needle cs := by
  induction ds
  case nil => rfl
  case cons d ds hi =>
    rw [List.cons_append, Text.contains, hi fun c hc => hds c (.tail _ hc)]
    cases needle
    case nil => cases cs <;> simp [Text.contains]
    case cons c needle => simp [hn.head_ne (hds d (.head _))]

theorem contains_rewrite (hn : Unbroken needle) :
    Text.contains needle (b.rewrite cs) = Text.contains needle cs := by
  induction cs
  case nil => rfl
  case cons c cs hi =>
    by_cases hc : c = '\n'
    case neg =>
      have hmatches : needle.isPrefixOf (b.rewrite (c :: cs)) = needle.isPrefixOf (c :: cs) :=
        b.isPrefixOf_rewrite hn
      rw [rewrite_cons b hc] at hmatches ⊢
      rw [Text.contains, hmatches, hi, Text.contains]
    case pos =>
      subst hc
      rw [rewrite_feed, contains_chars_append hn b.mem, hi]
      have hfeed : Text.contains needle (['\n'] ++ cs) = Text.contains needle cs :=
        contains_chars_append hn (by simp)
      exact hfeed.symm

theorem replaceFirst_chars_append {replacement : List Char} (hn : Unbroken needle)
    (hne : needle ≠ []) {ds : List Char} (hds : ∀ c ∈ ds, c = '\n' ∨ c = '\r') :
    Text.replaceFirst needle replacement (ds ++ cs) =
      ds ++ Text.replaceFirst needle replacement cs := by
  induction ds
  case nil => rfl
  case cons d ds hi =>
    obtain ⟨c, needle, rfl⟩ := List.exists_cons_of_ne_nil hne
    have hcd : c ≠ d := hn.head_ne (hds d (.head _))
    rw [List.cons_append, Text.replaceFirst, if_neg (by simp [hcd]),
      hi fun c hc => hds c (.tail _ hc), List.cons_append]

theorem replaceFirst_rewrite {replacement : List Char} (hn : Unbroken needle) (hne : needle ≠ [])
    (hr : Unbroken replacement) :
    Text.replaceFirst needle replacement (b.rewrite cs) =
      b.rewrite (Text.replaceFirst needle replacement cs) := by
  induction cs
  case nil => rfl
  case cons c cs hi =>
    by_cases hc : c = '\n'
    case pos =>
      -- The line feed is passed over as the line break is that stands for it.
      subst hc
      have hfeed : Text.replaceFirst needle replacement (['\n'] ++ cs) =
          ['\n'] ++ Text.replaceFirst needle replacement cs :=
        replaceFirst_chars_append hn hne (by simp)
      rw [List.singleton_append] at hfeed
      rw [rewrite_feed, replaceFirst_chars_append hn hne b.mem, hi, hfeed]
      rfl
    case neg =>
      have hmatches : needle.isPrefixOf (b.rewrite (c :: cs)) = needle.isPrefixOf (c :: cs) :=
        b.isPrefixOf_rewrite hn
      rw [Text.replaceFirst]
      split
      case isTrue h =>
        have hdrop := b.drop_rewrite (List.isPrefixOf_iff_prefix.mp h) hn
        rw [rewrite_cons b hc] at hmatches hdrop ⊢
        rw [Text.replaceFirst, if_pos (hmatches.trans h), hdrop, rewrite_append,
          b.rewrite_unbroken hr]
      case isFalse h =>
        rw [rewrite_cons b hc] at hmatches ⊢
        rw [Text.replaceFirst, if_neg (hmatches ▸ h), hi, rewrite_cons b hc]

end LineBreak

-- The text with a line feed for every line break.
def feeds : List Char → List Char
  | [] => []
  | '\r' :: '\n' :: cs => '\n' :: feeds cs
  | '\r' :: cs => '\n' :: feeds cs
  | c :: cs => c :: feeds cs

theorem feeds_cons {c : Char} {cs : List Char} (h : c ≠ '\r') :
    feeds (c :: cs) = c :: feeds cs := by
  rw [feeds]
  · exact fun _ hc _ => h hc
  · exact h

theorem feeds_return {cs : List Char} (h : cs.head? ≠ some '\n') :
    feeds ('\r' :: cs) = '\n' :: feeds cs := by
  rw [feeds]
  rintro _ rfl
  exact h rfl

-- No carriage return takes a line feed of the text behind it.
theorem LineBreak.head?_rewrite_cr (cs : List Char) : (cr.rewrite cs).head? ≠ some '\n' := by
  cases cs
  case nil => simp [rewrite_nil]
  case cons c cs =>
    by_cases hc : c = '\n'
    case pos => simp [hc, rewrite_feed, cr]
    case neg => simp [rewrite_cons _ hc, hc]

theorem feeds_rewrite {b : LineBreak} {cs : List Char} (hb : b = .crlf ∨ b = .cr)
    (hr : '\r' ∉ cs) : feeds (b.rewrite cs) = cs := by
  induction cs
  case nil => rfl
  case cons c cs hi =>
    simp only [List.mem_cons, not_or] at hr
    have hi := hi hr.2
    by_cases hc : c = '\n'
    case neg => rw [b.rewrite_cons hc, feeds_cons (Ne.symm hr.1), hi]
    case pos =>
      subst hc
      rcases hb with rfl | rfl
      case inl =>
        change '\n' :: feeds (LineBreak.crlf.rewrite cs) = _
        rw [hi]
      case inr =>
        change feeds ('\r' :: LineBreak.cr.rewrite cs) = _
        rw [feeds_return (LineBreak.head?_rewrite_cr cs), hi]

end SourceDocs

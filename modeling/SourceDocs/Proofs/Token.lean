import Mathlib
import SourceDocs.Token

namespace SourceDocs

-- What holds of every character of a text is decided along the text, not along all characters.
section

variable {α : Type} (p : α → Prop) [DecidablePred p]

instance (priority := high) decidableForallMemList (xs : List α) : Decidable (∀ a ∈ xs, p a) :=
  xs.decidableBAll p

instance (priority := high) decidableForallMemOption (x? : Option α) :
    Decidable (∀ a ∈ x?, p a) :=
  x?.decidableForallMem

end

end SourceDocs

namespace SourceDocs.Token

def WellFormed (t : Token) : Prop :=
  match t.kind with
  | .text => t.chars ≠ [] ∧ ∀ c ∈ t.chars, Kind.ofChar c = .text
  | .blank => t.chars ≠ [] ∧ ∀ c ∈ t.chars, Kind.ofChar c = .blank
  | .lineBreak => t.chars = ['\n'] ∨ t.chars = ['\r'] ∨ t.chars = ['\r', '\n']
  | .symbol => ∃ c, Kind.ofChar c = .symbol ∧ t.chars = [c]

-- Tokens that do not become one when they meet.
structure Apart (t u : Token) : Prop where
  text : t.kind = .text → u.kind ≠ .text
  blank : t.kind = .blank → u.kind ≠ .blank
  lineBreak : t.chars = ['\r'] → u.chars ≠ ['\n']

structure Canonical (ts : List Token) : Prop where
  wellFormed : ∀ t ∈ ts, t.WellFormed
  apart : ts.IsChain Apart

theorem kind_lead (c : Char) (cs : List Char) : (lead c cs).1.kind = Kind.ofChar c := by
  unfold lead
  split
  case h_3 h => split <;> (try split) <;> exact h.symm
  all_goals simp_all

theorem chars_lead_append (c : Char) (cs : List Char) :
    (lead c cs).1.chars ++ (lead c cs).2 = c :: cs := by
  unfold lead
  split
  case h_3 => split <;> (try split) <;> simp_all
  all_goals simp

theorem ofChar_lineBreak {c : Char} (h : Kind.ofChar c = .lineBreak) : c = '\n' ∨ c = '\r' := by
  unfold Kind.ofChar at h
  split at h <;> try split at h <;> try split at h
  all_goals simp_all

theorem wellFormed_lead (c : Char) (cs : List Char) : (lead c cs).1.WellFormed := by
  unfold lead
  split
  case h_1 h =>
    refine ⟨by simp, ?_⟩
    simp only [List.mem_cons, forall_eq_or_imp, h, true_and]
    intro d hd
    simpa using List.mem_takeWhile_imp hd
  case h_2 h =>
    refine ⟨by simp, ?_⟩
    simp only [List.mem_cons, forall_eq_or_imp, h, true_and]
    intro d hd
    simpa using List.mem_takeWhile_imp hd
  case h_3 h =>
    have := ofChar_lineBreak h
    split <;> (try split) <;> simp_all [WellFormed]
  case h_4 h => exact ⟨c, h, rfl⟩

theorem head?_chars_lead (c : Char) (cs : List Char) : (lead c cs).1.chars.head? = some c := by
  unfold lead
  split
  case h_3 => split <;> (try split) <;> simp_all
  all_goals simp

theorem apart_lead {c d : Char} {cs ds : List Char} (h : (lead c cs).2 = d :: ds) :
    Apart (lead c cs).1 (lead d ds).1 where
  text ht := by
    rw [kind_lead] at ht ⊢
    have := List.head?_dropWhile_not (Kind.ofChar · = .text) cs
    simp only [lead, ht] at h
    simpa [h] using this
  blank hb := by
    rw [kind_lead] at hb ⊢
    have := List.head?_dropWhile_not (Kind.ofChar · = .blank) cs
    simp only [lead, hb] at h
    simpa [h] using this
  lineBreak hr hn := by
    have hc := head?_chars_lead c cs
    have hd := head?_chars_lead d ds
    simp only [hr, List.head?_cons, Option.some.injEq] at hc
    simp only [hn, List.head?_cons, Option.some.injEq] at hd
    subst hc hd
    -- A carriage return takes a line feed that follows it.
    have happ := chars_lead_append '\r' cs
    rw [hr, h] at happ
    obtain rfl : '\n' :: ds = cs := by simpa using happ
    simp [lead, Kind.ofChar] at hr

theorem scan_canonical (cs : List Char) : Canonical (scan cs) := by
  fun_induction scan cs
  case case1 => exact ⟨by simp, .nil⟩
  case case2 c cs hi =>
    refine ⟨?wellFormed, ?apart⟩
    case wellFormed =>
      simp only [List.mem_cons, forall_eq_or_imp]
      exact ⟨wellFormed_lead c cs, hi.wellFormed⟩
    case apart =>
      have ha := hi.apart
      cases h : (lead c cs).2
      case nil => simp [scan]
      case cons d ds =>
        rw [h, scan] at ha
        rw [scan, List.isChain_cons_cons]
        exact ⟨apart_lead h, ha⟩

theorem flatMap_chars_scan (cs : List Char) : (scan cs).flatMap (·.chars) = cs := by
  fun_induction scan cs
  case case1 => rfl
  case case2 c cs hi => rw [List.flatMap_cons, hi, chars_lead_append]

theorem mem_chars_of_mem_scan {cs : List Char} {t : Token} (ht : t ∈ scan cs) {c : Char}
    (hc : c ∈ t.chars) : c ∈ cs := by
  rw [← flatMap_chars_scan cs]
  exact List.mem_flatMap.mpr ⟨t, ht, hc⟩

theorem WellFormed.ofChar_head {t : Token} (h : t.WellFormed) :
    ∃ c cs, t.chars = c :: cs ∧ Kind.ofChar c = t.kind := by
  unfold WellFormed at h
  cases hk : t.kind <;> simp only [hk] at h
  case text =>
    obtain ⟨c, cs, hc⟩ := List.exists_cons_of_ne_nil h.1
    exact ⟨c, cs, hc, h.2 c (by simp [hc])⟩
  case blank =>
    obtain ⟨c, cs, hc⟩ := List.exists_cons_of_ne_nil h.1
    exact ⟨c, cs, hc, h.2 c (by simp [hc])⟩
  case lineBreak => obtain h | h | h := h <;> exact ⟨_, _, h, by decide⟩
  case symbol =>
    obtain ⟨c, hc, h⟩ := h
    exact ⟨c, [], h, hc⟩

theorem takeWhile_dropWhile_append {k : Kind} {cs : List Char} (rest : List Char)
    (hcs : ∀ c ∈ cs, Kind.ofChar c = k) (hrest : ∀ d ∈ rest.head?, Kind.ofChar d ≠ k) :
    (cs ++ rest).takeWhile (Kind.ofChar · = k) = cs ∧
      (cs ++ rest).dropWhile (Kind.ofChar · = k) = rest := by
  rw [List.takeWhile_append_of_pos (by simpa using hcs),
    List.dropWhile_append_of_pos (by simpa using hcs)]
  cases rest <;> simp_all

theorem lead_of_apart {t : Token} {c : Char} {cs rest : List Char} (h : t.WellFormed)
    (hc : t.chars = c :: cs) (ha : ∀ u ∈ (scan rest).head?, Apart t u) :
    lead c (cs ++ rest) = (t, rest) := by
  have hhead (d : Char) (hd : d ∈ rest.head?) :
      ∃ u, Apart t u ∧ u.kind = Kind.ofChar d ∧ (d = '\n' → u.chars = ['\n']) := by
    cases rest <;> simp only [List.head?_nil, List.head?_cons, Option.mem_some_iff] at hd
    case nil => cases hd
    case cons d ds =>
      subst hd
      refine ⟨(lead _ ds).1, ha _ (by simp [scan]), kind_lead .., ?_⟩
      rintro rfl
      simp only [lead, show Kind.ofChar '\n' = .lineBreak by decide]
      split <;> simp
  obtain ⟨kind, chars⟩ := t
  obtain rfl : chars = c :: cs := hc
  cases kind <;> simp only [WellFormed, List.mem_cons, forall_eq_or_imp] at h
  case text =>
    obtain ⟨ht, hd⟩ := takeWhile_dropWhile_append rest h.2.2 fun d hd => by
      obtain ⟨u, hu, hk, _⟩ := hhead d hd
      exact hk ▸ hu.text rfl
    simp only [lead, h.2.1, ht, hd]
  case blank =>
    obtain ⟨ht, hd⟩ := takeWhile_dropWhile_append rest h.2.2 fun d hd => by
      obtain ⟨u, hu, hk, _⟩ := hhead d hd
      exact hk ▸ hu.blank rfl
    simp only [lead, h.2.1, ht, hd]
  case lineBreak =>
    obtain h | h | h := h <;> obtain ⟨rfl, rfl⟩ := List.cons.inj h
    case inl =>
      simp only [lead, show Kind.ofChar '\n' = .lineBreak by decide, List.nil_append]
      split <;> simp
    case inr.inl =>
      simp only [lead, show Kind.ofChar '\r' = .lineBreak by decide, List.nil_append]
      split
      case h_1 =>
        obtain ⟨u, hu, _, hn⟩ := hhead '\n' (by simp)
        exact absurd (hn rfl) (hu.lineBreak rfl)
      case h_2 => rfl
    case inr.inr => simp [lead, show Kind.ofChar '\r' = .lineBreak by decide]
  case symbol =>
    obtain ⟨d, hd, h⟩ := h
    obtain ⟨rfl, rfl⟩ := List.cons.inj h
    simp [lead, hd]

theorem scan_flatMap_chars {ts : List Token} (h : Canonical ts) :
    scan (ts.flatMap (·.chars)) = ts := by
  induction ts
  case nil => simp [scan]
  case cons t ts hi =>
    have hi := hi ⟨fun u hu => h.wellFormed u (.tail _ hu), h.apart.tail⟩
    have ht := h.wellFormed t (.head _)
    obtain ⟨c, cs, hc, -⟩ := ht.ofChar_head
    have ha := List.isChain_cons.mp h.apart |>.1
    rw [List.flatMap_cons, hc, List.cons_append, scan, lead_of_apart ht hc (by rwa [hi]), hi]

theorem Canonical.of_isInfix {ts us : List Token} (h : Canonical us) (hts : ts <:+: us) :
    Canonical ts where
  wellFormed t ht := h.wellFormed t (hts.subset ht)
  apart := by
    obtain ⟨before, after, rfl⟩ := hts
    have hleft := List.isChain_append.mp h.apart |>.1
    exact List.isChain_append.mp hleft |>.2.1

theorem Canonical.append {ts us : List Token} (ht : Canonical ts) (hu : Canonical us)
    (h : ∀ t ∈ ts.getLast?, ∀ u ∈ us.head?, Apart t u) : Canonical (ts ++ us) where
  wellFormed t hm := (List.mem_append.mp hm).elim (ht.wellFormed t) (hu.wellFormed t)
  apart := List.isChain_append.mpr ⟨ht.apart, hu.apart, h⟩

-- Two texts are cut apart from each other where their tokens do not become one.
theorem scan_append {xs ys : List Char}
    (h : ∀ t ∈ (scan xs).getLast?, ∀ u ∈ (scan ys).head?, Apart t u) :
    scan (xs ++ ys) = scan xs ++ scan ys := by
  have hc := (scan_canonical xs).append (scan_canonical ys) h
  have := scan_flatMap_chars hc
  rwa [List.flatMap_append, flatMap_chars_scan, flatMap_chars_scan] at this

end SourceDocs.Token

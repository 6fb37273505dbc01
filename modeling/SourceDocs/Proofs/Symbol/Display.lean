import SourceDocs.Config.Toml
import SourceDocs.Proofs.Symbol.NormalForm
import SourceDocs.Render.Structured

namespace SourceDocs

namespace Render.Json

open Config.Toml

-- What is written for a control character without an escape of its own.
theorem codePoint?_digits : ∀ n < 0x20,
    let digits := List.replicate (4 - (Nat.toDigits 16 n).length) '0' ++ Nat.toDigits 16 n
    digits.length = 4 ∧ codePoint? digits = some (.ofNat n) := by
  decide +kernel

theorem escapeChar_cases (c : Char) : escapeChar c = [c] ∧ c ≠ '\\' ∨
    ∃ name, escapeChar c = '\\' :: name ∧ ∀ rest, escape? (name ++ rest) = some (c, rest) := by
  unfold escapeChar
  split_ifs
  iterate 7
    case pos h =>
      subst h
      exact .inr ⟨_, rfl, fun _ => rfl⟩
  case pos h =>
    obtain ⟨hlen, hcode⟩ := codePoint?_digits c.toNat h
    refine .inr ⟨_, List.append_assoc .., fun rest => ?_⟩
    generalize List.replicate _ _ ++ Nat.toDigits 16 c.toNat = digits at hlen hcode
    simp [escape?, ← hlen, hcode]
  case neg h _ _ _ _ _ _ => exact .inl ⟨rfl, h⟩

theorem escaped_injective : (List.flatMap escapeChar).Injective := by
  intro cs ds h
  have hne (c : Char) : escapeChar c ≠ [] := by
    rcases escapeChar_cases c with ⟨h, -⟩ | ⟨name, h, -⟩ <;> simp [h]
  induction cs generalizing ds
  case nil =>
    cases ds
    case nil => rfl
    case cons d ds => simp [hne] at h
  case cons c cs ih =>
    cases ds
    case nil => simp [hne] at h
    case cons d ds =>
      rw [List.flatMap_cons, List.flatMap_cons] at h
      rcases escapeChar_cases c with ⟨hc, hplain⟩ | ⟨name, hc, hread⟩ <;>
        rcases escapeChar_cases d with ⟨hd, hplain'⟩ | ⟨name', hd, hread'⟩ <;>
        rw [hc, hd] at h <;> obtain ⟨hhead, htail⟩ := List.cons.inj h
      case inl.inl => rw [hhead, ih htail]
      case inl.inr => exact absurd hhead hplain
      case inr.inl => exact absurd hhead.symm hplain'
      case inr.inr =>
        have hboth := (hread _).symm.trans ((congrArg escape? htail).trans (hread' _))
        obtain ⟨rfl, htail⟩ := Prod.mk.inj (Option.some.inj hboth)
        rw [ih htail]

theorem quote_injective : quote.Injective := by
  intro s t h
  have hbody := List.append_inj_left' (List.cons.inj (String.ofList_inj.mp h)).2 rfl
  exact String.toList_inj.mp (escaped_injective hbody)

end Render.Json

def Using.symbols : Using → List Symbol
  | within scope => [scope]
  | renamed name target => [name, target]

namespace Symbol

-- Symbols that are read off a text or come about from others in the ways that names are resolved.
inductive Arises : Symbol → Prop
  | read {text : List Char} {s : Symbol} (h : ofText? text = some s) : Arises s
  | join {s child : Symbol} (hs : Arises s) (hc : Arises child) : Arises (s.join child)
  | under {scope : Option Symbol} {child : Symbol} (hs : ∀ s ∈ scope, Arises s)
      (hc : Arises child) : Arises (child.under scope)
  | apply {u : Using} {s t : Symbol} (hu : ∀ p ∈ u.symbols, Arises p) (hs : Arises s)
      (h : u.apply s = some t) : Arises t
  | candidate {c : Context} {name s : Symbol} (hs : ∀ p ∈ c.scope, Arises p)
      (hu : ∀ u ∈ c.usings, ∀ p ∈ u.symbols, Arises p) (hn : Arises name)
      (h : s ∈ c.candidates name) : Arises s

structure Dotless (s : Symbol) : Prop where
  ne_nil : s.segments ≠ []
  dot_not_mem : ∀ seg ∈ s.segments, '.' ∉ seg.toList

namespace Dotless

variable {s t child scope name : Symbol} {u : Using}

theorem of_read {text : List Char} (h : ofText? text = some s) : Dotless s := by
  obtain ⟨hne, hseg⟩ := isSegment_of_ofText? h
  exact ⟨hne, fun seg h => (hseg seg h).dot_not_mem⟩

-- A scope in front of a symbol may be without segments, and so may what follows a scope.
theorem join_left (hs : Dotless s) (hc : ∀ seg ∈ child.segments, '.' ∉ seg.toList) :
    Dotless (s.join child) :=
  ⟨List.append_ne_nil_of_left_ne_nil hs.ne_nil _,
    List.forall_mem_append.mpr ⟨hs.dot_not_mem, hc⟩⟩

theorem join_right (hs : ∀ seg ∈ s.segments, '.' ∉ seg.toList) (hc : Dotless child) :
    Dotless (s.join child) :=
  ⟨List.append_ne_nil_of_right_ne_nil _ hc.ne_nil,
    List.forall_mem_append.mpr ⟨hs, hc.dot_not_mem⟩⟩

theorem apply (hu : ∀ p ∈ u.symbols, Dotless p) (hs : Dotless s) (h : u.apply s = some t) :
    Dotless t := by
  cases u
  case within scope =>
    cases h
    exact (hu scope (.head _)).join_left hs.dot_not_mem
  case renamed name target =>
    simp only [Using.apply] at h
    split at h
    case isFalse => cases h
    case isTrue =>
      cases h
      exact (hu target (.tail _ (.head _))).join_left fun seg h =>
        hs.dot_not_mem seg (List.mem_of_mem_drop h)

theorem candidate {c : Context} (hs : ∀ p ∈ c.scope, Dotless p)
    (hu : ∀ u ∈ c.usings, ∀ p ∈ u.symbols, Dotless p) (hn : Dotless name)
    (h : s ∈ c.candidates name) : Dotless s := by
  rcases List.mem_append.mp h with h | h
  case inl =>
    obtain ⟨around, ha, rfl⟩ := List.mem_map.mp h
    obtain ⟨scope, hscope, ha⟩ := List.mem_flatMap.mp ha
    obtain ⟨n, -, rfl⟩ := List.mem_map.mp ha
    exact hn.join_right fun seg h =>
      (hs scope (Option.mem_toList.mp hscope)).dot_not_mem seg (List.mem_of_mem_take h)
  case inr =>
    rcases List.mem_cons.mp h with rfl | h
    case inl => exact hn
    case inr =>
      obtain ⟨u, hmem, h⟩ := List.mem_filterMap.mp h
      exact hn.apply (hu u hmem) h

end Dotless

variable {s t : Symbol}

theorem Arises.dotless (h : Arises s) : Dotless s := by
  induction h
  case read h => exact .of_read h
  case join hs hc => exact hs.join_left hc.dot_not_mem
  case under scope child hs' hc' hs hc =>
    cases scope
    case none => exact hc
    case some scope => exact (hs scope rfl).join_left hc.dot_not_mem
  case apply h hu hs => exact hs.apply hu h
  case candidate h hs hu hn => exact hn.candidate hs hu h

theorem Dotless.splitOn_toString (h : Dotless s) :
    (toString s).toList.splitOn '.' = s.segments.map String.toList := by
  have hdot : ∀ cs ∈ s.segments.map String.toList, '.' ∉ cs := by
    simpa using h.dot_not_mem
  rw [← List.splitOn_intercalate '.' hdot (by simpa using h.ne_nil)]
  exact congrArg (List.splitOn '.') String.toList_intercalate

theorem Dotless.eq_of_toString_eq (hs : Dotless s) (ht : Dotless t)
    (h : toString s = toString t) : s = t := by
  have hmap : s.segments.map String.toList = t.segments.map String.toList := by
    rw [← hs.splitOn_toString, ← ht.splitOn_toString, h]
  have hseg : s.segments = t.segments :=
    List.map_injective_iff.mpr (fun _ _ => String.toList_inj.mp) hmap
  cases s
  cases t
  exact congrArg Symbol.mk hseg

-- Symbols with one text, or for which the same JSON is written, are one symbol.
theorem known_by_text (depth : Nat) (hs : Arises s) (ht : Arises t)
    (h : toString s = toString t ∨ s.toJson.pretty depth = t.toJson.pretty depth) : s = t := by
  refine hs.dotless.eq_of_toString_eq ht.dotless ?_
  rcases h with h | h
  case inl => exact h
  case inr =>
    simp only [toJson, Render.Json.pretty] at h
    exact Render.Json.quote_injective h

-- Both symbols are written `A.B.X`: one is what `X` may mean in `A::B`, the other is read.
theorem known_by_text_candidate :
    let scope : Symbol := ⟨["A", "B"]⟩
    let s := (⟨["X"]⟩ : Symbol).under scope
    let t : Symbol := ⟨["A", "B", "X"]⟩
    Arises s ∧ Arises t ∧ toString s = toString t ∧ s = t := by
  intro scope s t
  have hread : ofText? "A::B".toList = some scope ∧ ofText? "X (int)".toList = some ⟨["X"]⟩ ∧
      ofText? "A->B.X".toList = some t := by
    decide +kernel
  obtain ⟨hscope, hname, ht⟩ := hread
  have hmem : s ∈ (Context.mk (some scope) []).candidates ⟨["X"]⟩ := List.mem_cons_self
  have hs : Arises s :=
    .candidate (by rintro _ ⟨⟩; exact .read hscope) (by simp) (.read hname) hmem
  have h : toString s = toString t := by decide
  exact ⟨hs, .read ht, h, known_by_text 0 hs (.read ht) (.inl h)⟩

end Symbol
end SourceDocs

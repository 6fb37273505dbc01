import SourceDocs.Proofs.ListShape

namespace SourceDocs

open Roles

variable {profile : Profile} {buf : Buffer} {roles : Roles} {d : Delimited} {closer : Char}
  {i j k : Nat}

theorem Roles.Nested.isBracket (h : Nested buf roles i j) (hi : i ≤ k) (hj : k < j)
    (hk : (roles.get k).any Role.isSuffixBracket = true) : buf.isBracket k = true := by
  induction h
  case nil => omega
  case other i j hr _ ih =>
    by_cases he : k = i
    case pos => simp [he, hr] at hk
    case neg => exact ih (by omega) hj
  case pair i m j _ hm _ _ ih ih' =>
    by_cases he : k = i
    case pos => exact he ▸ hm.isBracket.1
    case neg =>
      rcases Nat.lt_trichotomy k m with hlt | rfl | hlt
      case inl => exact ih (by omega) hlt
      case inr.inl => exact hm.isBracket.2
      case inr.inr => exact ih' hlt hj

namespace Prototype

theorem unmarked_empty (buf : Buffer) (i j : Nat) : Unmarked (.empty buf) i j :=
  fun k _ _ => by rw [get_empty]; rfl

-- Delimiting a list gives no role of a bracket behind a name or a type.
theorem unmarked_mark (hl : IsList profile buf closer d) (i j : Nat) : Unmarked (d.mark buf) i j := by
  intro k _ _
  by_cases ho : k = d.opener
  case pos =>
    rw [ho, hl.get_mark_opener]
    rfl
  case neg =>
    by_cases hs : k ∈ d.separators
    case pos =>
      rw [hl.get_mark_separator hs]
      rfl
    case neg =>
      by_cases hc : d.closer = some k
      case pos =>
        rw [get_mark_closer (hl.lt_of_closer hc).2 hc]
        rfl
      case neg =>
        rw [Delimited.get_mark ho hs hc]
        rfl

theorem sound_ofText (profile : Profile) (text : List Char) :
    Sound profile (.ofChars text) (ofText profile text).roles 0 (Buffer.ofChars text).size := by
  have hb := Buffer.wellFormed_ofChars text
  unfold ofText
  dsimp only
  split
  case h_1 d hd =>
    obtain ⟨closer, hl⟩ := isList_of_delimit? hd
    exact (marks_ofDelimited profile hb hl).sound d.size_mark (unmarked_mark hl _ _)
  case h_2 =>
    exact (marks_mark profile hb (Nat.zero_le _) (Nat.le_refl _) _).sound
      (by simp [Roles.empty]) (unmarked_empty _ _ _)

-- All marked brackets behind names and types are matching brackets in nested pairs, or all but one
-- and the last token. That one opens a block that nothing closes, and the last token stands in for
-- the closing bracket.
theorem suffix_brackets_nested_or_dangling (profile : Profile) (text : List Char) :
    Nested (.ofChars text) (ofText profile text).roles 0 (Buffer.ofChars text).size ∨
      ∃ k, Dangling profile (.ofChars text) (ofText profile text).roles 0 k :=
  (sound_ofText profile text).imp_right And.right

-- The block is never closed, and the number in it has the role of the bracket that closes it.
theorem cut_off_index_not_nested :
    (ofText .builtinC "x[3".toList).roles.get 1 = some .openingNameSuffix ∧
    (ofText .builtinC "x[3".toList).roles.get 2 = some .closingNameSuffix ∧
    (Buffer.ofChars "x[3".toList).chars 2 = ['3'] ∧
    ¬Nested (.ofChars "x[3".toList) (ofText .builtinC "x[3".toList).roles 0
      (Buffer.ofChars "x[3".toList).size := by
  refine ⟨by decide +kernel, by decide +kernel, by decide +kernel, fun h => ?_⟩
  have hk : (Buffer.ofChars "x[3".toList).isBracket 2 = true :=
    h.isBracket (Nat.zero_le _) (by decide +kernel) (by decide +kernel)
  exact absurd hk (by decide +kernel)

end Prototype
end SourceDocs

import SourceDocs.Proofs.OneLine.Reread

namespace SourceDocs.Chars

open Prototype

section Cut

variable (inside beyond rest : List Char)

-- The part of `inside` that is read when `rest` is left of `inside` and `beyond` together.
def taken : List Char :=
  inside.take ((inside ++ beyond).length - rest.length)

def left : List Char :=
  inside.drop ((inside ++ beyond).length - rest.length)

theorem taken_append_left : taken inside beyond rest ++ left inside beyond rest = inside :=
  List.take_append_drop ..

variable {inside beyond rest}

theorem cut_append (cs ds beyond : List Char) :
    taken (cs ++ ds) beyond (ds ++ beyond) = cs ∧ left (cs ++ ds) beyond (ds ++ beyond) = ds := by
  simp [taken, left]

theorem taken_self : taken inside beyond (inside ++ beyond) = [] := by
  simp [taken]

theorem left_self : left inside beyond (inside ++ beyond) = inside := by
  simp [left]

theorem left_of_le (h : rest.length ≤ beyond.length) : left inside beyond rest = [] := by
  rw [left, List.drop_eq_nil_iff, List.length_append]
  omega

theorem taken_of_le (h : rest.length ≤ beyond.length) : taken inside beyond rest = inside := by
  rw [taken, List.take_of_length_le]
  rw [List.length_append]
  omega

-- What is read ends before the end of the prototype, or goes on to it and maybe further.
theorem cut_or (h : rest <:+ inside ++ beyond) : rest = left inside beyond rest ++ beyond ∨
    left inside beyond rest = [] ∧ rest.length ≤ beyond.length := by
  rcases Nat.le_total rest.length beyond.length with hle | hle
  case inl => exact .inr ⟨left_of_le hle, hle⟩
  case inr =>
    have hlen := h.length_le
    refine .inl ?_
    rw [List.length_append] at hlen
    rw [left, ← List.drop_append_of_le_length (by rw [List.length_append]; omega)]
    exact List.suffix_iff_eq_drop.mp h

end Cut

theorem Unsplit.left {profile : Profile} {c : Char} {inside beyond : List Char}
    (h : Unsplit profile (c :: inside) beyond) (rest : List Char) :
    Unsplit profile (Chars.left inside beyond rest) beyond :=
  h.of_suffix ((List.drop_suffix ..).trans (List.suffix_cons ..))

def space (spaced : Bool) : List Char :=
  if spaced then [] else [' ']

variable (profile : Profile)

-- What is written for the text `inside` when `beyond` follows it. It does not start with a space if
-- `spaced` is set.
def emit (beyond : List Char) (spaced : Bool) (inside : List Char) : List Char :=
  match inside with
  | [] => []
  | c :: inside =>
    let rest := (read profile c (inside ++ beyond)).2
    match (read profile c (inside ++ beyond)).1 with
    | .gap => space spaced ++ emit beyond true (left inside beyond rest)
    | .comment =>
      match keptComment? profile (c :: taken inside beyond rest) with
      | some kept => kept ++ emit beyond false (left inside beyond rest)
      | none => space spaced ++ emit beyond true (left inside beyond rest)
    | .copied => c :: taken inside beyond rest ++ emit beyond false (left inside beyond rest)
termination_by inside.length
decreasing_by
  all_goals
    simp only [left, List.length_drop, List.length_cons]
    omega

variable {profile} {beyond inside rest : List Char} {spaced : Bool} {c : Char}

theorem emit_nil : emit profile beyond spaced [] = [] := by
  rw [emit]

theorem emit_gap (h : read profile c (inside ++ beyond) = (.gap, inside ++ beyond)) :
    emit profile beyond spaced (c :: inside) =
      space spaced ++ emit profile beyond true inside := by
  rw [emit, h, left_self]

theorem emit_code (h : read profile c (inside ++ beyond) = (.copied, inside ++ beyond)) :
    emit profile beyond spaced (c :: inside) = c :: emit profile beyond false inside := by
  rw [emit, h, taken_self, left_self]
  rfl

section Steps

variable {new kept : List Char}

-- How a text with nothing beyond is written of which `inside` has been read.
theorem emit_kept (h : read profile c (inside ++ new) = (.comment, new))
    (hk : keptComment? profile (c :: inside) = some kept) :
    emit profile [] spaced (c :: (inside ++ new)) = kept ++ emit profile [] false new := by
  have ⟨htaken, hleft⟩ := cut_append inside new []
  rw [List.append_nil] at htaken hleft
  rw [emit, List.append_nil, h, htaken, hleft]
  simp only [hk]

theorem emit_copied (h : read profile c (inside ++ new) = (.copied, new)) :
    emit profile [] spaced (c :: (inside ++ new)) =
      c :: inside ++ emit profile [] false new := by
  have ⟨htaken, hleft⟩ := cut_append inside new []
  rw [List.append_nil] at htaken hleft
  rw [emit, List.append_nil, h, htaken, hleft]

end Steps

theorem leads_emit (hp : profile.Punctuated) (beyond inside : List Char) :
    Leads (emit profile beyond false inside) (inside ++ beyond) := by
  generalize hs : false = spaced
  fun_induction emit profile beyond spaced inside
  case case1 => exact .nil
  case case2 => exact hs ▸ .space
  case case3 c inside rest _ kept hk ih =>
    rw [(keptComment?_collapse hp hk).1]
    have := (ih rfl).collapse (c :: taken inside beyond rest)
    rwa [List.cons_append, ← List.append_assoc, taken_append_left] at this
  case case4 => exact hs ▸ .space
  case case5 c inside rest _ ih =>
    have := (ih rfl).append (c :: taken inside beyond rest)
    rwa [List.cons_append, List.cons_append, ← List.append_assoc, taken_append_left] at this

section Again

variable {part : Part} (hr : read profile c (inside ++ beyond) = (part, rest))

include hr

theorem read_taken : read profile c
    (taken inside beyond rest ++ (left inside beyond rest ++ beyond)) = (part, rest) := by
  rw [← List.append_assoc, taken_append_left, hr]

-- What is read ends with what is written, or behind the end of the prototype when nothing follows.
theorem read_end {new blanks : List Char}
    (h : emit profile beyond spaced (left inside beyond rest) = new ++ blanks) :
    rest = left inside beyond rest ++ beyond ∧ (left inside beyond rest ++ beyond = [] → new = []) ∨
      new = [] ∧ left inside beyond rest = [] ∧ rest.length ≤ beyond.length := by
  have hnil (hl : left inside beyond rest = []) : new = [] := by
    rw [hl, emit_nil] at h
    exact (List.append_eq_nil_iff.mp h.symm).1
  have hsuffix : rest <:+ inside ++ beyond := by
    have : (read profile c (inside ++ beyond)).2 <:+ inside ++ beyond := read_suffix
    rwa [hr] at this
  rcases cut_or hsuffix with hrest | ⟨hl, hle⟩
  case inl => exact .inl ⟨hrest, fun hb => hnil (List.append_eq_nil_iff.mp hb).1⟩
  case inr => exact .inr ⟨hnil hl, hl, hle⟩

theorem length_rest_le : rest.length ≤ (left inside beyond rest ++ beyond).length := by
  have hall := List.append_nil (emit profile beyond false (left inside beyond rest))
  rcases read_end hr hall.symm with ⟨hrest, -⟩ | ⟨-, hl, hle⟩
  case inl => exact Nat.le_of_eq (congrArg List.length hrest)
  case inr => rwa [hl]

end Again

theorem emit_again_space {written out blanks : List Char}
    (ih : ∀ out, written = out ++ blanks → emit profile [] true out = out)
    (h : space spaced ++ written = out ++ blanks) : emit profile [] spaced out = out := by
  cases spaced
  case true => exact ih out h
  case false =>
    cases out
    case nil => exact emit_nil
    case cons c out =>
      obtain ⟨rfl, hwritten⟩ := List.cons.inj h
      rw [emit_gap (read_gap rfl), ih out hwritten]
      rfl

theorem emit_again_kept (hp : profile.Punctuated) (hu : Unsplit profile (c :: inside) beyond)
    (hr : read profile c (inside ++ beyond) = (.comment, rest)) {kept new blanks : List Char}
    (hk : keptComment? profile (c :: taken inside beyond rest) = some kept)
    (h : emit profile beyond false (left inside beyond rest) = new ++ blanks)
    (hnew : emit profile [] false new = new) :
    emit profile [] spaced (kept ++ new) = kept ++ new := by
  obtain ⟨hkept, hagain⟩ := keptComment?_collapse hp hk
  have hread := read_taken hr
  have hlead : Leads new (left inside beyond rest ++ beyond) :=
    (leads_emit hp beyond _).of_start ⟨blanks, h.symm⟩
  have hsolid := (read_eq_comment.mp hread).2.elim fun s hs => solid_of_blockSymbols? hp hs.1
  rw [hkept, collapse_solid_cons hsolid] at hagain ⊢
  rw [List.cons_append, emit_kept ?_ hagain, hnew, List.cons_append]
  refine read_collapse hp hlead hread (length_rest_le hr)
    ((read_end hr h).imp_right fun ⟨hn, hl, _⟩ => ⟨hn, ?_⟩) (opener_of_keptComment? hk)
  have hinside := taken_append_left inside beyond rest
  rw [hl, List.append_nil] at hinside
  rwa [hl, hinside]

theorem emit_again_copied (hp : profile.Punctuated)
    (hr : read profile c (inside ++ beyond) = (.copied, rest)) {new blanks : List Char}
    (h : c :: taken inside beyond rest ++ emit profile beyond false (left inside beyond rest) =
      new ++ blanks)
    (ih : ∀ out, emit profile beyond false (left inside beyond rest) = out ++ blanks →
      emit profile [] false out = out) :
    emit profile [] spaced new = new := by
  have hread := read_taken hr
  cases new
  case nil => exact emit_nil
  case cons d new =>
    obtain ⟨rfl, hnew⟩ := List.cons.inj h
    rcases prefix_append_cases ⟨blanks, hnew.symm⟩ with ⟨more, hmore⟩ | ⟨out, rfl, hne, -⟩
    case inl =>
      have := read_copied_start hp hread (length_rest_le hr) ⟨more, hmore.symm⟩
      rw [← List.append_nil (c :: new), List.cons_append, emit_copied (by rwa [List.append_nil]),
        emit_nil, List.cons_append]
    case inr =>
      have hout : emit profile beyond false (left inside beyond rest) = out ++ blanks := by
        simpa using hnew
      obtain ⟨hrest, hnil⟩ := (read_end hr hout).resolve_right fun h => hne h.1
      have hlead : Leads out (left inside beyond rest ++ beyond) :=
        (leads_emit hp beyond _).of_start ⟨blanks, hout.symm⟩
      have hread := read_copied hp hlead (hread.trans (congrArg _ hrest)) hnil
      rw [emit_copied hread, ih out hout, List.cons_append]

theorem kept_append_eq {kept written out blanks : List Char}
    (hk : ∃ c ∈ kept.getLast?, Unicode.isWhiteSpace c = false)
    (h : kept ++ written = out ++ blanks) (hb : ∀ c ∈ blanks, Unicode.isWhiteSpace c = true) :
    ∃ new, out = kept ++ new ∧ written = new ++ blanks := by
  rcases List.append_eq_append_iff.mp h with ⟨new, hout, hwritten⟩ | ⟨more, rfl, rfl⟩
  case inl => exact ⟨new, hout, hwritten⟩
  case inr =>
    obtain ⟨c, hc, hsolid⟩ := hk
    rcases List.eq_nil_or_concat more with rfl | ⟨more, d, rfl⟩
    case inl => exact ⟨[], by simp, rfl⟩
    case inr =>
      obtain rfl : d = c := by simpa [← List.append_assoc] using hc
      simp [hb d (by simp)] at hsolid

theorem emit_again (hp : profile.Punctuated) (hu : Unsplit profile inside beyond)
    {out blanks : List Char} (h : emit profile beyond spaced inside = out ++ blanks)
    (hb : ∀ c ∈ blanks, Unicode.isWhiteSpace c = true) :
    emit profile [] spaced out = out := by
  fun_induction emit profile beyond spaced inside generalizing out
  case case1 =>
    obtain ⟨rfl, -⟩ := List.append_eq_nil_iff.mp h.symm
    exact emit_nil
  case case2 c inside rest hr ih =>
    exact emit_again_space (fun out => ih (hu.left rest)) h
  case case3 c inside rest hr kept hk ih =>
    obtain ⟨new, rfl, hnew⟩ := kept_append_eq (getLast?_keptComment? hp hk) h hb
    exact emit_again_kept hp hu (Prod.ext hr rfl) hk hnew (ih (hu.left rest) hnew)
  case case4 c inside rest hr hk ih =>
    exact emit_again_space (fun out => ih (hu.left rest)) h
  case case5 c inside rest hr ih =>
    exact emit_again_copied hp (Prod.ext hr rfl) h fun out => ih (hu.left rest)

end SourceDocs.Chars

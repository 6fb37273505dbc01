import SourceDocs.Proofs.SuffixMark

namespace SourceDocs

open Roles

theorem Roles.get_foldl_set_mem {roles : Roles} {role : Option Role} {is : List Nat} {k : Nat}
    (hk : k ∈ is) (hs : k < roles.slots.size) :
    (is.foldl (fun r i => r.set i role) roles).get k = role := by
  induction is generalizing roles
  case nil => cases hk
  case cons i is hi =>
    rw [List.foldl_cons]
    by_cases hmem : k ∈ is
    case pos => exact hi hmem (by simpa using hs)
    case neg =>
      obtain rfl : k = i := (List.mem_cons.mp hk).resolve_right hmem
      rw [get_foldl_set hmem, get_set, if_pos ⟨rfl, hs⟩]

namespace Prototype

variable {profile : Profile} {buf : Buffer} {d : Delimited} {closer : Char} {i j k start stop : Nat}
  {separators : List Nat}

-- Separators are found from left to right, before the end of the list.
theorem bounds_of_listSeparators {c : Option Nat}
    (h : listSeparators profile buf closer i = (separators, c)) :
    separators.Pairwise (· < ·) ∧ (∀ k ∈ separators, i ≤ k ∧ k < c.getD buf.size) ∧
      ∀ k ∈ c, i ≤ k ∧ k < buf.size := by
  fun_induction listSeparators profile buf closer i generalizing separators c
  case case1 i hi _ rest ih =>
    obtain ⟨rfl, rfl⟩ := Prod.mk.inj h
    obtain ⟨hp, hs, hc⟩ := ih rfl
    refine ⟨List.pairwise_cons.mpr ⟨fun k hk => (hs k hk).1, hp⟩, fun k hk => ?separators,
      fun k hk => ?closer⟩
    case separators =>
      rcases List.mem_cons.mp hk with rfl | hk
      case inr => exact ⟨Nat.le_of_lt (hs k hk).1, (hs k hk).2⟩
      case inl =>
        refine ⟨Nat.le_refl _, ?_⟩
        cases hend : rest.2
        case none => exact hi
        case some c => exact (hc c hend).1
    case closer =>
      have := hc k hk
      omega
  case case2 hi _ _ =>
    obtain ⟨rfl, rfl⟩ := Prod.mk.inj h
    simp [hi]
  case case3 i hi _ _ j he ih =>
    have hij := Skip.lt_enclosed? profile buf he
    obtain ⟨hp, hs, hc⟩ := ih h
    refine ⟨hp, fun k hk => ?_, fun k hk => ?_⟩
    · have := hs k hk
      omega
    · have := hc k hk
      omega
  case case4 i hi _ _ he ih =>
    obtain ⟨hp, hs, hc⟩ := ih h
    refine ⟨hp, fun k hk => ?_, fun k hk => ?_⟩
    · have := hs k hk
      omega
    · have := hc k hk
      omega
  case case5 =>
    obtain ⟨rfl, rfl⟩ := Prod.mk.inj h
    simp

theorem le_of_mem_sections (hp : separators.Pairwise (· < ·))
    (hs : ∀ k ∈ separators, start ≤ k ∧ k < stop) (hle : start ≤ stop) {r : Nat × Nat}
    (hr : r ∈ sections start stop separators) : r.1 ≤ r.2 := by
  induction separators generalizing start
  case nil =>
    obtain rfl := List.mem_singleton.mp hr
    exact hle
  case cons i is hi =>
    have ⟨hi₁, hi₂⟩ := hs i (.head _)
    rw [List.pairwise_cons] at hp
    rcases List.mem_cons.mp hr with rfl | hr
    case inl => exact hi₁
    case inr =>
      exact hi hp.2 (fun k hk => ⟨hp.1 k hk, (hs k (.tail _ hk)).2⟩) hi₂ hr

-- Between two parts that follow each other stands the separator that divides them.
theorem separator_of_sections {a b : Nat × Nat} {n : Nat}
    (ha : (sections start stop separators)[n]? = some a)
    (hb : (sections start stop separators)[n + 1]? = some b) :
    a.2 ∈ separators ∧ b.1 = a.2 + 1 := by
  induction separators generalizing start n
  case nil => simp [sections] at hb
  case cons i is hi =>
    rw [sections, List.getElem?_cons_succ] at hb
    cases n
    case zero =>
      obtain rfl : (start, i) = a := by simpa [sections] using ha
      obtain ⟨first, rest, hcons⟩ := sections_eq_cons stop is
      rw [hcons] at hb
      obtain rfl : (i + 1, first) = b := by simpa using hb
      exact ⟨.head _, rfl⟩
    case succ n =>
      rw [sections, List.getElem?_cons_succ] at ha
      obtain ⟨hmem, hb⟩ := hi ha hb
      exact ⟨.tail _ hmem, hb⟩

theorem length_sections (start stop : Nat) (separators : List Nat) :
    (sections start stop separators).length = separators.length + 1 := by
  induction separators generalizing start
  case nil => rfl
  case cons i is hi => rw [sections, List.length_cons, List.length_cons, hi]

-- The parts and the separators are all that there is.
theorem mem_section_or_separator (separators : List Nat) (hk : start ≤ k) (hk' : k < stop) :
    k ∈ separators ∨ ∃ r ∈ sections start stop separators, r.1 ≤ k ∧ k < r.2 := by
  induction separators generalizing start
  case nil => exact .inr ⟨(start, stop), .head _, hk, hk'⟩
  case cons i is hi =>
    rcases Nat.lt_trichotomy k i with hlt | rfl | hlt
    case inl => exact .inr ⟨(start, i), .head _, hk, hlt⟩
    case inr.inl => exact .inl (.head _)
    case inr.inr =>
      rcases hi (show i + 1 ≤ k from hlt) with hmem | ⟨r, hr, hb⟩
      case inl => exact .inl (.tail _ hmem)
      case inr => exact .inr ⟨r, .tail _ hr, hb⟩

namespace IsList

variable (h : IsList profile buf closer d)

include h

theorem opener_lt_size : d.opener < buf.size := by
  obtain ⟨b, -, hb⟩ := h.opener
  exact buf.lt_size_of_isChar hb

theorem lt_of_closer (hk : d.closer = some k) : d.opener < k ∧ k < buf.size :=
  (bounds_of_listSeparators h.separators).2.2 k hk

theorem opener_lt_stop : d.opener < d.stop buf := by
  unfold Delimited.stop
  cases hc : d.closer
  case none => exact h.opener_lt_size
  case some k => exact (h.lt_of_closer hc).1

theorem stop_le_size : d.stop buf ≤ buf.size := by
  unfold Delimited.stop
  cases hc : d.closer
  case none => exact Nat.le_refl _
  case some k => exact Nat.le_of_lt (h.lt_of_closer hc).2

theorem separator_bounds (hk : k ∈ d.separators) : d.opener < k ∧ k < d.stop buf :=
  (bounds_of_listSeparators h.separators).2.1 k hk

theorem pairwise_separators : d.separators.Pairwise (· < ·) :=
  (bounds_of_listSeparators h.separators).1

theorem section_le {r : Nat × Nat}
    (hr : r ∈ sections (d.opener + 1) (d.stop buf) d.separators) : r.1 ≤ r.2 :=
  le_of_mem_sections h.pairwise_separators (fun _ hk => h.separator_bounds hk) h.opener_lt_stop hr

theorem ordered_parts : Ordered (d.opener + 1) (d.stop buf) d.separators
    (sections (d.opener + 1) (d.stop buf) d.separators) :=
  (ordered_sections fun _ hr => h.section_le hr).1

theorem exists_section {r : Nat × Nat} (hr : r ∈ d.parameters buf) :
    ∃ part ∈ sections (d.opener + 1) (d.stop buf) d.separators,
      r = Delimited.trimmed buf part.1 part.2 ∧ Trimmed buf part.1 part.2 r := by
  obtain ⟨part, hpart, rfl⟩ := List.mem_map.mp ((parameters_sublist d buf).mem hr)
  exact ⟨part, hpart, rfl, trimmed_trimmed (h.section_le hpart)⟩

theorem parameter_bounds {r : Nat × Nat} (hr : r ∈ d.parameters buf) :
    d.opener < r.1 ∧ r.1 ≤ r.2 ∧ r.2 ≤ d.stop buf := by
  obtain ⟨part, hpart, -, ht⟩ := h.exists_section hr
  exact ⟨(h.ordered_parts.start_le part hpart).trans ht.start_le, ht.le,
    ht.le_stop.trans (h.ordered_parts.le_stop part hpart)⟩

theorem parameters_in_order : (d.parameters buf).Pairwise (·.2 < ·.1) := by
  refine List.Pairwise.sublist (parameters_sublist d buf) ?_
  rw [List.pairwise_map]
  refine h.ordered_parts.pairwise.imp fun {a b} hab => ?_
  have hstop : (Delimited.trimmed buf a.1 a.2).2 ≤ a.2 := buf.beforeBlanks_le ..
  have hstart : b.1 ≤ (Delimited.trimmed buf b.1 b.2).1 := buf.le_afterBlanks ..
  omega

end IsList

theorem marks_parameters (profile : Profile) (hb : buf.WellFormed)
    (hl : IsList profile buf closer d) (style : Style) (roles : Roles) :
    Marks profile buf d.opener (d.stop buf) roles ((d.parameters buf).foldl
      (fun roles r => mark profile buf style roles r.1 r.2) roles) := by
  have hs := hl.stop_le_size
  refine .foldl Prod.fst Prod.snd (fun r x hx => ?mark) (fun x hx => ?within)
    (hl.parameters_in_order.imp Nat.le_of_lt) (Nat.le_of_lt hl.opener_lt_stop) hs roles
  all_goals have := hl.parameter_bounds hx
  case mark => exact marks_mark profile hb (by omega) (by omega) style
  case within => omega

theorem marks_markAround (profile : Profile) (hb : buf.WellFormed)
    (hl : IsList profile buf closer d) (roles : Roles) :
    ∃ r, Marks profile buf (d.stop buf) buf.size roles r ∧
      Marks profile buf 0 d.opener r (markAround profile buf d roles) := by
  have hstop := hl.stop_le_size
  have hopener := hl.opener_lt_size
  have hbefore := buf.beforeBlanks_le 0 d.opener
  refine exists_of_markAround profile buf d (Marks profile buf (d.stop buf) buf.size)
    (Marks profile buf 0 d.opener) (fun _ => .refl hstop) (fun _ => .refl (Nat.zero_le _))
    (fun r i hi hlt => ?type) (fun r => ?name) (fun r => ?head) roles
  case type =>
    exact (marks_markModifiersAndType profile hb (Nat.le_of_lt hlt) (Nat.le_refl _)).mono
      (Nat.le_of_lt hi) (Nat.le_of_lt hlt) (Nat.le_refl _) (Nat.le_refl _)
  case name =>
    exact (marks_markModifiersAndName profile hb (Nat.zero_le _) (by omega)).mono
      (Nat.le_refl _) (Nat.zero_le _) hbefore (Nat.le_of_lt hopener)
  case head =>
    exact (marks_markC profile hb (Nat.zero_le _) (by omega)).mono (Nat.le_refl _)
      (Nat.zero_le _) hbefore (Nat.le_of_lt hopener)

theorem marks_ofDelimited (profile : Profile) (hb : buf.WellFormed)
    (hl : IsList profile buf closer d) :
    Marks profile buf 0 buf.size (d.mark buf) (ofDelimited profile buf d).roles := by
  have hopener := hl.opener_lt_stop
  have hstop := hl.stop_le_size
  obtain ⟨r, hafter, hbefore⟩ := marks_markAround profile hb hl ((d.parameters buf).foldl
    (fun roles r => mark profile buf
      ((listStyle? profile buf (d.parameters buf)).getD .c) roles r.1 r.2) (d.mark buf))
  have hlist := (marks_parameters profile hb hl _ (d.mark buf)).append (Nat.le_of_lt hopener)
    hstop (Nat.le_refl _) hafter
  exact hlist.prepend (Nat.zero_le _) (by omega) (Nat.le_refl _) hbefore

theorem get_marks (profile : Profile) (hb : buf.WellFormed) (style : Style) {rs : List (Nat × Nat)}
    (h : ∀ r ∈ rs, IsEnd buf r.2 ∧ (k < r.1 ∨ r.2 ≤ k)) (roles : Roles) :
    (rs.foldl (fun roles r => mark profile buf style roles r.1 r.2) roles).get k =
      roles.get k := by
  induction rs generalizing roles
  case nil => rfl
  case cons r rs hi =>
    have ⟨hend, hr⟩ := h r (.head _)
    rw [List.foldl_cons, hi fun r hr => h r (.tail _ hr)]
    exact (sameOutside_mark profile hb hend style).get_eq k hr

-- The brackets of the list and what stands between them and the parameters are not marked again.
theorem get_ofDelimited (hb : buf.WellFormed) (hl : IsList profile buf closer d)
    (hk : d.opener ≤ k) (hk' : k ≤ d.stop buf)
    (hout : ∀ r ∈ d.parameters buf, k < r.1 ∨ r.2 ≤ k) :
    (ofDelimited profile buf d).roles.get k = (d.mark buf).get k := by
  obtain ⟨r, hafter, hbefore⟩ := exists_markAround profile hb hl.isEnd_opener
    ((d.parameters buf).foldl (fun roles r => mark profile buf
      ((listStyle? profile buf (d.parameters buf)).getD .c) roles r.1 r.2) (d.mark buf))
  refine (hbefore.get_eq k (.inr hk)).trans ((hafter.get_eq k (.inl (by omega))).trans ?_)
  exact get_marks profile hb _ (fun r hr => ⟨hl.isEnd_parameter hr, hout r hr⟩) _

namespace IsList

variable (hl : IsList profile buf closer d)

include hl

theorem get_mark_opener : (d.mark buf).get d.opener = some .startOfParameters := by
  have hset : (d.separators.foldl (fun r i => r.set i (some .parameterSeparator))
      ((Roles.empty buf).set d.opener (some .startOfParameters))).get d.opener =
        some .startOfParameters := by
    have hlt := hl.opener_lt_size
    have hs : d.opener ∉ d.separators := fun hk => by
      have := hl.separator_bounds hk
      omega
    rw [get_foldl_set hs, get_set, if_pos ⟨rfl, by simpa [Roles.empty] using hlt⟩]
  unfold Delimited.mark
  cases hc : d.closer
  case none => exact hset
  case some c =>
    have := hl.lt_of_closer hc
    dsimp only
    rw [get_set, if_neg (by omega), hset]

theorem get_mark_separator (hk : k ∈ d.separators) :
    (d.mark buf).get k = some .parameterSeparator := by
  have hlt := hl.separator_bounds hk
  have hstop := hl.stop_le_size
  have hset : (d.separators.foldl (fun r i => r.set i (some .parameterSeparator))
      ((Roles.empty buf).set d.opener (some .startOfParameters))).get k =
        some .parameterSeparator :=
    get_foldl_set_mem hk (by simp [Roles.empty]; omega)
  unfold Delimited.mark
  cases hc : d.closer
  case none => exact hset
  case some c =>
    rw [Delimited.stop, hc, Option.getD_some] at hlt
    dsimp only
    rw [get_set, if_neg (by omega), hset]

-- A separator stands between the parameters, and the brackets around them.
theorem outside_parameters (hk : k = d.opener ∨ k ∈ d.separators ∨ d.closer = some k) :
    d.opener ≤ k ∧ k ≤ d.stop buf ∧ ∀ r ∈ d.parameters buf, k < r.1 ∨ r.2 ≤ k := by
  have hlt := hl.opener_lt_stop
  rcases hk with rfl | hk | hk
  case inl => exact ⟨Nat.le_refl _, Nat.le_of_lt hlt, fun r hr => .inl (hl.parameter_bounds hr).1⟩
  case inr.inl =>
    have hb := hl.separator_bounds hk
    refine ⟨Nat.le_of_lt hb.1, Nat.le_of_lt hb.2, fun r hr => ?_⟩
    obtain ⟨part, hpart, -, ht⟩ := hl.exists_section hr
    have := hl.ordered_parts.separators part hpart k hk
    have := ht.start_le
    have := ht.le_stop
    omega
  case inr.inr =>
    have hstop : d.stop buf = k := by rw [Delimited.stop, hk, Option.getD_some]
    exact ⟨by omega, Nat.le_of_eq hstop.symm, fun r hr => .inr (hstop ▸ (hl.parameter_bounds hr).2.2)⟩

variable (hb : buf.WellFormed)

include hb

-- Marking gives and takes no role of a list.
theorem get_iff {role : Role} (hr : role.isOfList = true) :
    (ofDelimited profile buf d).roles.get k = some role ↔ (d.mark buf).get k = some role := by
  constructor
  case mp =>
    intro h
    rcases (marks_ofDelimited profile hb hl).no_list k with hk | hk
    case inl => exact hk ▸ h
    case inr => simp [h, hr] at hk
  case mpr =>
    intro h
    have hk : k = d.opener ∨ k ∈ d.separators ∨ d.closer = some k := by
      by_contra hn
      simp only [not_or] at hn
      cases (Delimited.get_mark hn.1 hn.2.1 hn.2.2).symm.trans h
    have ⟨h₁, h₂, hout⟩ := hl.outside_parameters hk
    rw [get_ofDelimited hb hl h₁ h₂ hout, h]

theorem start_iff :
    (ofDelimited profile buf d).roles.get k = some .startOfParameters ↔ k = d.opener := by
  rw [hl.get_iff hb rfl]
  constructor
  case mpr =>
    rintro rfl
    exact hl.get_mark_opener
  case mp =>
    intro h
    by_contra ho
    by_cases hs : k ∈ d.separators
    case pos => cases (hl.get_mark_separator hs).symm.trans h
    case neg =>
      by_cases hc : d.closer = some k
      case pos => cases (get_mark_closer (hl.lt_of_closer hc).2 hc).symm.trans h
      case neg => cases (Delimited.get_mark ho hs hc).symm.trans h

theorem separator_iff :
    (ofDelimited profile buf d).roles.get k = some .parameterSeparator ↔ k ∈ d.separators := by
  rw [hl.get_iff hb rfl]
  refine ⟨fun h => ?_, hl.get_mark_separator⟩
  by_contra hs
  by_cases ho : k = d.opener
  case pos => cases (ho ▸ hl.get_mark_opener).symm.trans h
  case neg =>
    by_cases hc : d.closer = some k
    case pos => cases (get_mark_closer (hl.lt_of_closer hc).2 hc).symm.trans h
    case neg => cases (Delimited.get_mark ho hs hc).symm.trans h

end IsList

def Blank (buf : Buffer) (opener stop : Nat) : Prop :=
  ∀ k, opener < k → k < stop → buf.isBlank k = true

theorem not_isBlank_of_isListSeparator (h : isListSeparator buf k = true) :
    buf.isBlank k = false :=
  (Bool.or_eq_true .. ▸ h).elim Buffer.not_isBlank_of_isChar Buffer.not_isBlank_of_isChar

theorem IsList.not_isBlank_separator (hl : IsList profile buf closer d) (hk : k ∈ d.separators) :
    buf.isBlank k = false :=
  not_isBlank_of_isListSeparator (mem_listSeparators (by rwa [hl.separators]))

theorem IsList.parameters_of_blank (hl : IsList profile buf closer d)
    (h : Blank buf d.opener (d.stop buf)) : d.parameters buf = [] := by
  have hnone : d.separators = [] := by
    refine List.eq_nil_iff_forall_not_mem.mpr fun k hk => ?_
    have hb := hl.separator_bounds hk
    simpa [hl.not_isBlank_separator hk] using h k hb.1 hb.2
  have hlt := hl.opener_lt_stop
  have hfirst : buf.afterBlanks (d.opener + 1) (d.stop buf) = d.stop buf := by
    rw [Buffer.afterBlanks, Buffer.seek_from (fun k hk hk' => by simp [h k hk hk']) hlt (Nat.le_refl _),
      Buffer.seek_end (Nat.le_refl _)]
  have hlast : buf.beforeBlanks (d.stop buf) (d.stop buf) = d.stop buf :=
    Nat.le_antisymm (buf.beforeBlanks_le ..) (buf.le_beforeBlanks (Nat.le_refl _))
  simp [Delimited.parameters, Delimited.ranges, Delimited.trimmed, hnone, hfirst, hlast]

theorem IsList.parameters_of_not_blank (hl : IsList profile buf closer d)
    (h : ¬Blank buf d.opener (d.stop buf)) :
    d.parameters buf = (sections (d.opener + 1) (d.stop buf) d.separators).map
      fun r => Delimited.trimmed buf r.1 r.2 := by
  rw [Delimited.parameters, ranges_eq]
  cases hs : d.separators
  case cons i is =>
    obtain ⟨first, rest, hcons⟩ := sections_eq_cons (d.stop buf) is
    simp [sections, hcons]
  case nil =>
    have ht : Trimmed buf (d.opener + 1) (d.stop buf) _ := trimmed_trimmed hl.opener_lt_stop
    have hne : (Delimited.trimmed buf (d.opener + 1) (d.stop buf)).1 ≠
        (Delimited.trimmed buf (d.opener + 1) (d.stop buf)).2 := by
      intro he
      refine h fun k hk hk' => ?_
      by_cases hlt : k < (Delimited.trimmed buf (d.opener + 1) (d.stop buf)).1
      case pos => exact Buffer.isBlank_of_lt_afterBlanks hk hlt
      case neg => exact ht.behind k (by omega) hk'
    simp [sections, hne]

theorem countP_tokens (p : Prototype) (role : Role) :
    p.tokens.countP (·.2 = some role) =
      ((List.range p.buffer.size).filter (p.roles.get · = some role)).length := by
  have hroles : p.tokens.map (·.2) = (List.range p.buffer.size).map p.roles.get := by
    refine List.ext_getElem? fun k => ?_
    rw [List.getElem?_map, List.getElem?_map, tokens, getElem?_marked, Nat.min_self, Nat.zero_add]
    by_cases hk : k < p.buffer.size
    case pos =>
      have ht : p.buffer.tokens[k]? = some p.buffer.tokens[k] := Array.getElem?_eq_getElem hk
      simp [hk, ht]
    case neg => simp [hk]
  have hcount : p.tokens.countP (·.2 = some role) =
      (p.tokens.map (·.2)).countP (· = some role) := by
    rw [List.countP_map]
    rfl
  rw [hcount, hroles, List.countP_map, List.countP_eq_length_filter]
  rfl

theorem IsList.countP_separators (hl : IsList profile buf closer d) (hb : buf.WellFormed) :
    (ofDelimited profile buf d).tokens.countP (·.2 = some .parameterSeparator) =
      d.separators.length := by
  rw [countP_tokens]
  refine List.Perm.length_eq ((List.perm_ext_iff_of_nodup ?positions ?separators).mpr fun k => ?mem)
  case positions => exact List.nodup_range.filter _
  case separators => exact hl.pairwise_separators.imp Nat.ne_of_lt
  case mem =>
    rw [List.mem_filter, List.mem_range, decide_eq_true_eq, hl.separator_iff hb]
    refine ⟨And.right, fun hk => ⟨?_, hk⟩⟩
    exact (hl.separator_bounds hk).2.trans_le hl.stop_le_size

-- A parameter list between `opener` and `stop` as its prototype shows it. It loses no token, and
-- what is marked in it leaves its brackets and separators alone.
structure IsDelimited (p : Prototype) (opener stop : Nat) : Prop where
  start_iff : ∀ k, p.roles.get k = some .startOfParameters ↔ k = opener
  end_iff : ∀ k, p.roles.get k = some .endOfParameters ↔ k = stop ∧ stop < p.buffer.size
  stop_le : opener < stop ∧ stop ≤ p.buffer.size
  bounds : ∀ r ∈ p.parameters, opener < r.1 ∧ r.1 ≤ r.2 ∧ r.2 ≤ stop
  in_order : p.parameters.Pairwise (·.2 < ·.1)
  trimmed : ∀ r ∈ p.parameters, r.1 < r.2 →
    p.buffer.isBlank r.1 = false ∧ p.buffer.isBlank (r.2 - 1) = false
  unseparated : ∀ r ∈ p.parameters, ∀ k, r.1 ≤ k → k < r.2 →
    p.roles.get k ≠ some .parameterSeparator
  separated : ∀ n a b, p.parameters[n]? = some a → p.parameters[n + 1]? = some b →
    ∃ k, a.2 ≤ k ∧ k < b.1 ∧ p.roles.get k = some .parameterSeparator ∧
      ∀ m, a.2 ≤ m → m < b.1 → m ≠ k →
        p.buffer.isBlank m = true ∧ p.roles.get m ≠ some .parameterSeparator
  complete : ∀ k, opener < k → k < stop → p.buffer.isBlank k = true ∨
    p.roles.get k = some .parameterSeparator ∨ ∃ r ∈ p.parameters, r.1 ≤ k ∧ k < r.2
  count_blank : Blank p.buffer opener stop → p.parameters.length = 0
  count : ¬Blank p.buffer opener stop →
    p.parameters.length = p.tokens.countP (·.2 = some .parameterSeparator) + 1

-- The blanks around a part of the list are all that its range leaves out.
theorem isBlank_or_mem_trimmed (hi : i ≤ k) (hk : k < j) : buf.isBlank k = true ∨
    (Delimited.trimmed buf i j).1 ≤ k ∧ k < (Delimited.trimmed buf i j).2 := by
  by_cases hfirst : k < (Delimited.trimmed buf i j).1
  case pos => exact .inl (Buffer.isBlank_of_lt_afterBlanks hi hfirst)
  case neg =>
    by_cases hlast : k < (Delimited.trimmed buf i j).2
    case pos => exact .inr ⟨Nat.le_of_not_lt hfirst, hlast⟩
    case neg => exact .inl (Buffer.of_retreat_le (Nat.le_of_not_lt hlast) hk)

theorem IsList.separated (hl : IsList profile buf closer d) (hb : buf.WellFormed) {n : Nat}
    {a b : Nat × Nat} (ha : (d.parameters buf)[n]? = some a)
    (hn : (d.parameters buf)[n + 1]? = some b) :
    ∃ k, a.2 ≤ k ∧ k < b.1 ∧
      (ofDelimited profile buf d).roles.get k = some .parameterSeparator ∧
        ∀ m, a.2 ≤ m → m < b.1 → m ≠ k → buf.isBlank m = true ∧
          (ofDelimited profile buf d).roles.get m ≠ some .parameterSeparator := by
  have hblank : ¬Blank buf d.opener (d.stop buf) := fun h => by
    simp [hl.parameters_of_blank h] at ha
  rw [hl.parameters_of_not_blank hblank, List.getElem?_map, Option.map_eq_some_iff] at ha hn
  obtain ⟨first, hfirst, rfl⟩ := ha
  obtain ⟨second, hsecond, rfl⟩ := hn
  obtain ⟨hmem, heq⟩ := separator_of_sections hfirst hsecond
  have hle : (Delimited.trimmed buf first.1 first.2).2 ≤ first.2 := buf.beforeBlanks_le ..
  have hlt : second.1 ≤ (Delimited.trimmed buf second.1 second.2).1 := buf.le_afterBlanks ..
  refine ⟨first.2, hle, by omega, (hl.separator_iff hb).mpr hmem, fun m hm hm' hne => ?_⟩
  have hblank : buf.isBlank m = true := by
    by_cases hmk : m < first.2
    case pos => exact Buffer.of_retreat_le hm hmk
    case neg => exact Buffer.isBlank_of_lt_afterBlanks (by omega) hm'
  refine ⟨hblank, fun hs => ?_⟩
  simp [hl.not_isBlank_separator ((hl.separator_iff hb).mp hs)] at hblank

theorem IsList.isDelimited (hl : IsList profile buf closer d) (hb : buf.WellFormed) :
    IsDelimited (ofDelimited profile buf d) d.opener (d.stop buf) where
  start_iff _ := hl.start_iff hb
  end_iff k := by
    rw [end_iff_closer hb hl]
    change _ ↔ _ ∧ d.stop buf < buf.size
    unfold Delimited.stop
    cases hc : d.closer
    case none => simp
    case some c =>
      have := (hl.lt_of_closer hc).2
      simp [this, eq_comm]
  stop_le := ⟨hl.opener_lt_stop, hl.stop_le_size⟩
  bounds _ hr := hl.parameter_bounds hr
  in_order := hl.parameters_in_order
  trimmed r hr hlt := by
    obtain ⟨part, -, -, ht⟩ := hl.exists_section hr
    exact ⟨ht.first hlt, ht.last hlt⟩
  unseparated r hr k hk hk' hs := by
    have ⟨_, _, hout⟩ := hl.outside_parameters (.inr (.inl ((hl.separator_iff hb).mp hs)))
    have := hout r hr
    omega
  separated n a b ha hn := hl.separated hb ha hn
  complete k hk hk' := by
    by_cases hblank : Blank buf d.opener (d.stop buf)
    case pos => exact .inl (hblank k hk hk')
    case neg =>
      rcases mem_section_or_separator d.separators hk hk' with hs | ⟨r, hr, h₁, h₂⟩
      case inl => exact .inr (.inl ((hl.separator_iff hb).mpr hs))
      case inr =>
        refine (isBlank_or_mem_trimmed h₁ h₂).imp_right fun hm => .inr ⟨_, ?_, hm⟩
        change _ ∈ d.parameters buf
        rw [hl.parameters_of_not_blank hblank]
        exact List.mem_map_of_mem hr
  count_blank h := by
    change (d.parameters buf).length = 0
    rw [hl.parameters_of_blank h, List.length_nil]
  count h := by
    change (d.parameters buf).length = _
    rw [hl.parameters_of_not_blank h, List.length_map, length_sections, hl.countP_separators hb]

-- Whatever the text of a prototype, a parameter list that is found in it has one opening bracket,
-- at most one closing bracket, and its parameters in order with one separator between each two; and
-- the marks of the parameters and of all else leave the roles of the list as they are.
theorem list_isDelimited (profile : Profile) (text : List Char) {opener stop : Nat}
    (h : (ofText profile text).list = some (opener, stop)) :
    IsDelimited (ofText profile text) opener stop := by
  obtain ⟨d, closer, htext, rfl, hl, -⟩ := exists_of_list h
  rw [htext] at h ⊢
  obtain rfl : d.stop _ = stop := congrArg Prod.snd (Option.some.inj h)
  exact hl.isDelimited (Buffer.wellFormed_ofChars text)

-- The list is never closed, and its second parameter is empty.
theorem list_isDelimited_unclosed :
    (ofText .builtinC "f( a::b *x, ;=1".toList).list = some (1, 15) ∧
    IsDelimited (ofText .builtinC "f( a::b *x, ;=1".toList) 1 15 := by
  have h : (ofText .builtinC "f( a::b *x, ;=1".toList).list = some (1, 15) := by decide +kernel
  exact ⟨h, list_isDelimited .builtinC _ h⟩

end Prototype
end SourceDocs

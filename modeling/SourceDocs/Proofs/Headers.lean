import Mathlib
import SourceDocs.Header
import SourceDocs.Profile.Builtin
import SourceDocs.Proofs.Comment.Order
import SourceDocs.Proofs.LineBreak.Entity

namespace SourceDocs.Header

variable {kinds : KindTable} {text : Nat → List Char}

-- The entity `e` is read from a line in the body of the enum `outer`, where `text` says what stands
-- on a line.
structure IsMemberOf (kinds : KindTable) (text : Nat → List Char) (outer e : Entity) : Prop where
  enum : (kinds.get? outer.kind).any (·.isEnum) = true
  header : ∃ kind, header? kinds (text outer.line) = some (kind, outer.title.toList) ∧
    kind.name = outer.kind
  lt : outer.line < e.line
  body : ∀ line, outer.line < line → line ≤ e.line → header? kinds (text line) = none
  read : members e.line [text e.line] = [e]

theorem members_cons (line : Nat) (t : List Char) (rest : List (List Char)) :
    members line (t :: rest) = members line [t] ++ members (line + 1) rest := by
  rw [members, members]
  cases member? t <;> simp [members]

theorem members_eq_nil_or_singleton (line : Nat) (t : List Char) :
    members line [t] = [] ∨ ∃ e, members line [t] = [e] ∧ e.line = line ∧ e.isEmbedded = true := by
  rw [members]
  cases member? t
  case none => exact .inl rfl
  case some => exact .inr ⟨_, rfl, rfl, rfl⟩

theorem of_mem_members {line n : Nat} {e : Entity}
    (he : e ∈ members line ((List.range' line n).map text)) :
    line ≤ e.line ∧ e.line < line + n ∧ e.isEmbedded = true ∧
      members e.line [text e.line] = [e] := by
  induction n generalizing line
  case zero => simp [members] at he
  case succ n hi =>
    rw [List.range'_succ, List.map_cons, members_cons, List.mem_append] at he
    rcases he with he | he
    case inl =>
      rcases members_eq_nil_or_singleton line (text line) with h | ⟨d, h, rfl, hd⟩
      case inl => simp [h] at he
      case inr =>
        obtain rfl := List.mem_singleton.mp (h ▸ he)
        exact ⟨Nat.le_refl _, by omega, hd, h⟩
    case inr =>
      obtain ⟨hle, hlt, hread⟩ := hi he
      exact ⟨by omega, by omega, hread⟩

theorem pairwise_members (line n : Nat) :
    (members line ((List.range' line n).map text)).Pairwise (·.line < ·.line) := by
  induction n generalizing line
  case zero => simp [members]
  case succ n hi =>
    rw [List.range'_succ, List.map_cons, members_cons]
    rcases members_eq_nil_or_singleton line (text line) with h | ⟨d, h, hd, -⟩
    case inl => simpa [h] using hi (line + 1)
    case inr =>
      rw [h, List.singleton_append]
      refine .cons (fun e he => ?_) (hi (line + 1))
      have := (of_mem_members he).1
      omega

structure Section.Reads (kinds : KindTable) (text : Nat → List Char) (s : Section) : Prop where
  header : header? kinds (text s.line) = some (s.kind, s.title)
  body : s.body = (List.range' (s.line + 1) s.body.length).map text
  plain : ∀ line, s.line < line → line ≤ s.line + s.body.length → header? kinds (text line) = none

-- The lines before the first header, and then section after section. The lines before a header that
-- is put in front become its body.
structure Cut (kinds : KindTable) (text : Nat → List Char) (line stop : Nat)
    (lead : List (List Char)) (found : List Section) : Prop where
  lead_eq : lead = (List.range' line lead.length).map text
  plain : ∀ l, line ≤ l → l < line + lead.length → header? kinds (text l) = none
  le : line + lead.length ≤ stop
  reads : ∀ s ∈ found, s.Reads kinds text
  bounds : ∀ s ∈ found, line + lead.length ≤ s.line ∧ s.line + s.body.length < stop
  ordered : found.Pairwise fun s t => s.line + s.body.length < t.line

namespace Cut

variable {line stop : Nat} {lead : List (List Char)} {found : List Section}

theorem nil (kinds : KindTable) (text : Nat → List Char) (line : Nat) :
    Cut kinds text line line [] [] := by
  refine ⟨rfl, fun l hl hl' => ?_, Nat.le_refl _, by simp, by simp, .nil⟩
  rw [List.length_nil] at hl'
  omega

theorem cons_plain (h : Cut kinds text (line + 1) stop lead found)
    (hh : header? kinds (text line) = none) :
    Cut kinds text line stop (text line :: lead) found where
  lead_eq := by rw [List.length_cons, List.range'_succ, List.map_cons, ← h.lead_eq]
  plain l hl hl' := by
    rw [List.length_cons] at hl'
    rcases Nat.lt_or_eq_of_le hl with hlt | rfl
    case inl => exact h.plain l hlt (by omega)
    case inr => exact hh
  le := by
    have := h.le
    rw [List.length_cons]
    omega
  reads := h.reads
  bounds s hs := by
    have := h.bounds s hs
    rw [List.length_cons]
    omega
  ordered := h.ordered

theorem cons_header (h : Cut kinds text (line + 1) stop lead found) {kind : Kind}
    {title : List Char} (hh : header? kinds (text line) = some (kind, title)) :
    Cut kinds text line stop [] (⟨line, kind, title, lead⟩ :: found) where
  lead_eq := rfl
  plain l hl hl' := by
    rw [List.length_nil] at hl'
    omega
  le := by
    have := h.le
    rw [List.length_nil]
    omega
  reads := List.forall_mem_cons.mpr
    ⟨⟨hh, h.lead_eq, fun l hl hl' => h.plain l hl (by dsimp only at hl'; omega)⟩, h.reads⟩
  bounds := List.forall_mem_cons.mpr (by
    have := h.le
    dsimp only [List.length_nil]
    refine ⟨by omega, fun s hs => ?_⟩
    have := h.bounds s hs
    omega)
  ordered := .cons (fun s hs => by have := h.bounds s hs; dsimp only; omega) h.ordered

end Cut

theorem cut_sections (kinds : KindTable) (text : Nat → List Char) (line n : Nat) :
    Cut kinds text line (line + n)
      (sections kinds ((List.range' line n).map fun l => (l, text l))).1
      (sections kinds ((List.range' line n).map fun l => (l, text l))).2 := by
  induction n generalizing line
  case zero => exact .nil kinds text line
  case succ n hi =>
    have h := hi (line + 1)
    rw [List.range'_succ, List.map_cons, sections, ← Nat.succ_add_eq_add_succ]
    dsimp only
    cases hh : header? kinds (text line)
    case none => exact h.cons_plain hh
    case some => exact h.cons_header hh

-- Before every embedded entity stands one that is not, with which it is in the relation `R`, and
-- only embedded ones stand between the two.
def Led (R : Entity → Entity → Prop) (es : List Entity) : Prop :=
  ∀ before e after, es = before ++ e :: after → e.isEmbedded = true →
    ∃ front outer between, before = front ++ outer :: between ∧ outer.isEmbedded = false ∧
      (∀ m ∈ between, m.isEmbedded = true) ∧ R outer e

namespace Led

variable {R Q : Entity → Entity → Prop} {es ds : List Entity}

theorem mono (h : Led R es) (hq : ∀ outer ∈ es, ∀ e ∈ es, R outer e → Q outer e) : Led Q es := by
  rintro before e after rfl he
  obtain ⟨front, outer, between, rfl, ho, hb, hr⟩ := h before e after rfl he
  exact ⟨front, outer, between, rfl, ho, hb, hq _ (by simp) _ (by simp) hr⟩

theorem append (h : Led R es) (h' : Led R ds) : Led R (es ++ ds) := by
  intro before e after heq he
  rcases List.append_eq_append_iff.mp heq with ⟨mid, rfl, hmid⟩ | ⟨mid, rfl, hmid⟩
  case inl =>
    obtain ⟨front, outer, between, rfl, ho⟩ := h' mid e after hmid he
    exact ⟨es ++ front, outer, between, by simp, ho⟩
  case inr =>
    rcases List.cons_eq_append_iff.mp hmid with ⟨rfl, hds⟩ | ⟨mid, rfl, -⟩
    case inl =>
      obtain ⟨front, outer, between, hb, ho⟩ := h' [] e after hds he
      simp at hb
    case inr => exact h before e mid rfl he

theorem flatMap {α : Type} {f : α → List Entity} {xs : List α} (h : ∀ x ∈ xs, Led R (f x)) :
    Led R (xs.flatMap f) := by
  induction xs
  case nil => simp [Led]
  case cons x xs hi =>
    have ⟨hx, hxs⟩ := List.forall_mem_cons.mp h
    exact hx.append (hi hxs)

theorem cons {outer : Entity} (ho : outer.isEmbedded = false)
    (h : ∀ e ∈ es, e.isEmbedded = true ∧ R outer e) : Led R (outer :: es) := by
  intro before e after heq he
  cases before
  case nil =>
    obtain ⟨rfl, -⟩ := List.cons.inj heq
    simp [ho] at he
  case cons first between =>
    obtain ⟨rfl, rfl⟩ := List.cons.inj heq
    exact ⟨[], outer, between, rfl, ho, fun m hm => (h m (by simp [hm])).1, (h e (by simp)).2⟩

end Led

variable {s : Section}

theorem line_withBody (title kind : String) (line : Nat) (body : List Char) :
    ((Entity.ofHeader title kind line).withBody body).line = line :=
  rfl

theorem of_mem_entities (h : s.Reads kinds text) {e : Entity} (he : e ∈ s.entities kinds) :
    s.line ≤ e.line ∧ e.line ≤ s.line + s.body.length := by
  rcases List.mem_cons.mp he with rfl | he
  case inl => exact ⟨Nat.le_refl _, Nat.le_add_right ..⟩
  case inr =>
    split at he
    case isTrue =>
      rw [h.body] at he
      have ⟨hle, hlt, _⟩ := of_mem_members he
      omega
    case isFalse => cases he

theorem pairwise_entities (h : s.Reads kinds text) :
    (s.entities kinds).Pairwise (·.line < ·.line) := by
  unfold Section.entities
  dsimp only
  split
  case isTrue =>
    rw [h.body]
    refine .cons (fun e he => ?_) (pairwise_members ..)
    have := (of_mem_members he).1
    rw [line_withBody]
    omega
  case isFalse => simp

theorem led_entities (h : s.Reads kinds text) :
    Led (IsMemberOf kinds text) (s.entities kinds) := by
  unfold Section.entities
  dsimp only
  split
  case isTrue henum =>
    refine .cons rfl fun e he => ?_
    rw [h.body] at he
    have ⟨hle, hlt, hembedded, hread⟩ := of_mem_members he
    refine ⟨hembedded, ?_, ⟨s.kind, ?_, rfl⟩, ?_, fun line hl hl' => ?_, hread⟩
    · exact (Bool.and_eq_true_iff.mp henum).1
    · simpa [Entity.ofHeader, Entity.withBody] using h.header
    · rw [line_withBody]
      omega
    · rw [line_withBody] at hl
      exact h.plain line hl (by omega)
  case isFalse => exact .cons rfl (by simp)

section Comments

variable {buf : Buffer} {tags : Comment.Tags} {c : Comment.Candidate}

theorem reads_sections (buf : Buffer) (tags : Comment.Tags) (kinds : KindTable)
    (hc : c.startLine ≤ c.endLine) :
    Cut kinds (lineText buf tags) c.startLine c.endLine (sections kinds (lines buf tags c)).1
      (sections kinds (lines buf tags c)).2 := by
  have := cut_sections kinds (lineText buf tags) c.startLine c.lineCount
  rwa [Comment.Candidate.lineCount, Nat.add_sub_cancel' hc] at this

theorem containsLine_of_mem_entitiesOf (hc : c.startLine ≤ c.endLine) {e : Entity}
    (he : e ∈ entitiesOf buf tags kinds c) : c.containsLine e.line = true := by
  have h := reads_sections buf tags kinds hc
  obtain ⟨s, hs, he⟩ := List.mem_flatMap.mp he
  have := of_mem_entities (h.reads s hs) he
  have := h.bounds s hs
  rw [Comment.Candidate.containsLine_iff]
  omega

theorem pairwise_entitiesOf (hc : c.startLine ≤ c.endLine) :
    (entitiesOf buf tags kinds c).Pairwise (·.line < ·.line) := by
  have h := reads_sections buf tags kinds hc
  refine List.pairwise_flatMap.mpr ⟨fun s hs => pairwise_entities (h.reads s hs), ?_⟩
  refine h.ordered.imp_of_mem fun {s t} hs ht hlt d hd e he => ?_
  have := of_mem_entities (h.reads s hs) hd
  have := of_mem_entities (h.reads t ht) he
  omega

theorem led_entitiesOf (hc : c.startLine ≤ c.endLine) :
    Led (IsMemberOf kinds (lineText buf tags)) (entitiesOf buf tags kinds c) := by
  have h := reads_sections buf tags kinds hc
  exact .flatMap fun s hs => led_entities (h.reads s hs)

end Comments

theorem dropEndWhile_ne_nil {p : Char → Bool} {cs : List Char} {c : Char} (hc : c ∈ cs)
    (hp : p c = false) : Text.dropEndWhile p cs ≠ [] := by
  intro h
  rw [Text.dropEndWhile, List.reverse_eq_nil_iff, List.dropWhile_eq_nil_iff] at h
  simp [h c (List.mem_reverse.mpr hc)] at hp

theorem not_isSpace_of_not_isWhiteSpace {c : Char} (h : Unicode.isWhiteSpace c = false) :
    Text.isSpace c = false := by
  rw [Bool.eq_false_iff]
  intro hs
  simp only [Text.isSpace, Bool.or_eq_true, beq_iff_eq] at hs
  rcases hs with rfl | rfl <;> revert h <;> decide

theorem title_ne_nil {cs title : List Char} {kind : Kind}
    (h : header? kinds cs = some (kind, title)) : title ≠ [] := by
  simp only [header?, bind, Option.bind_eq_some_iff] at h
  obtain ⟨_, _, after, _, _, hg, _, _, heq⟩ := h
  obtain rfl := congrArg Prod.snd (Option.some.inj heq)
  rw [Option.guard_eq_some', Option.any_eq_true] at hg
  obtain ⟨c, hc, hw⟩ := hg
  exact dropEndWhile_ne_nil (List.mem_of_mem_head? hc)
    (not_isSpace_of_not_isWhiteSpace (by simpa using hw))

theorem name_ne_nil {cs name description : List Char}
    (h : member? cs = some (name, description)) : name ≠ [] := by
  simp only [member?, bind, Option.bind_eq_some_iff] at h
  obtain ⟨_, hg, after, _, h⟩ := h
  rw [Option.guard_eq_some'] at hg
  split at h
  case h_1 =>
    obtain ⟨_, _, heq⟩ := Option.bind_eq_some_iff.mp h
    obtain rfl := congrArg Prod.fst (Option.some.inj heq)
    simpa using hg
  case h_2 => cases h

theorem title_ne_empty {buf : Buffer} {tags : Comment.Tags} {c : Comment.Candidate} {e : Entity}
    (hc : c.startLine ≤ c.endLine) (he : e ∈ entitiesOf buf tags kinds c) : e.title ≠ "" := by
  have h := reads_sections buf tags kinds hc
  have hofList {cs : List Char} (hcs : cs ≠ []) : String.ofList cs ≠ "" := by simpa using hcs
  obtain ⟨s, hs, he⟩ := List.mem_flatMap.mp he
  rcases List.mem_cons.mp he with rfl | he
  case inl => exact hofList (title_ne_nil (h.reads s hs).header)
  case inr =>
    split at he
    case isTrue =>
      rw [(h.reads s hs).body] at he
      have ⟨_, _, _, hread⟩ := of_mem_members he
      rw [members] at hread
      split at hread
      case h_1 hm =>
        have htitle := congrArg Entity.title (List.cons.inj hread).1
        exact htitle ▸ hofList (name_ne_nil hm)
      case h_2 => simp [members] at hread
    case isFalse => cases he

section File

variable {c d : Comment.Candidate} {cs : List Comment.Candidate}

theorem countP_le_one {α : Type} {p : α → Bool} {xs : List α}
    (h : xs.Pairwise fun x y => ¬(p x = true ∧ p y = true)) : xs.countP p ≤ 1 := by
  induction h
  case nil => simp
  case cons x xs hx _ hi =>
    cases hp : p x
    case false => simpa [hp] using hi
    case true =>
      have hnone : xs.countP p = 0 := List.countP_eq_zero.mpr fun y hy hpy => hx y hy ⟨hp, hpy⟩
      simp [hp, hnone]

theorem countP_containsLine (h : cs.Pairwise (·.endLine ≤ ·.startLine)) (hc : c ∈ cs) {line : Nat}
    (hl : c.containsLine line = true) : cs.countP (·.containsLine line) = 1 := by
  have hle : cs.countP (·.containsLine line) ≤ 1 :=
    countP_le_one (h.imp fun hcd => Comment.Candidate.not_containsLine_both hcd line)
  have hpos : 0 < cs.countP (·.containsLine line) := List.countP_pos_iff.mpr ⟨c, hc, hl⟩
  omega

theorem eq_of_containsLine (h : cs.Pairwise (·.endLine ≤ ·.startLine)) (hc : c ∈ cs) (hd : d ∈ cs)
    {line : Nat} (hl : c.containsLine line = true) (hl' : d.containsLine line = true) : c = d := by
  by_contra hne
  have hboth : cs.Pairwise fun c d =>
      ∀ line, ¬(c.containsLine line = true ∧ d.containsLine line = true) :=
    h.imp Comment.Candidate.not_containsLine_both
  have : Std.Symm fun c d : Comment.Candidate =>
      ∀ line, ¬(c.containsLine line = true ∧ d.containsLine line = true) :=
    ⟨fun _ _ hcd line hdc => hcd line hdc.symm⟩
  exact hboth.forall hc hd hne line ⟨hl, hl'⟩

end File

-- In the comments that a scan finds, headers and members are recognized line after line. Each has a
-- title on one line and stands in exactly one comment, and the comments in which one stands are
-- those that are claimed. A member comes behind the enum from whose body it is read, in the same
-- comment and with only members between the two.
theorem recognize_in_order (text : List Char) (profile : Profile) (kinds : KindTable)
    {tags : Comment.Tags} {signal : Signal} {n : Nat} {cs : List Comment.Candidate}
    (h : (Comment.scan (.ofChars text) profile tags signal n).outcome = .completed cs) :
    let scanned := (Comment.scan (.ofChars text) profile tags signal n).tags
    let (comments, entities) := recognize (.ofChars text) scanned kinds cs
    entities.Pairwise (·.line < ·.line) ∧
      (∀ e ∈ entities, comments.countP (·.containsLine e.line) = 1) ∧
      (∀ c ∈ comments, c.claimed = true ↔ ∃ e ∈ entities, c.containsLine e.line = true) ∧
      (∀ e ∈ entities, e.title ≠ "" ∧ '\n' ∉ e.title.toList ∧ '\r' ∉ e.title.toList) ∧
      Led (fun outer e => IsMemberOf kinds (lineText (.ofChars text) scanned) outer e ∧
          ∃ c ∈ comments, c.containsLine outer.line = true ∧ c.containsLine e.line = true)
        entities := by
  have ⟨hfits, hpairs⟩ := Comment.ordered_of_completed h
  generalize (Comment.scan (.ofChars text) profile tags signal n).tags = scanned
  dsimp only [recognize]
  have hle {c : Comment.Candidate} (hc : c ∈ cs) : c.startLine ≤ c.endLine :=
    Nat.le_of_lt (hfits c hc).lt
  have hin {c : Comment.Candidate} (hc : c ∈ cs) {e : Entity}
      (he : e ∈ entitiesOf (.ofChars text) scanned kinds c) : c.containsLine e.line = true :=
    containsLine_of_mem_entitiesOf (hle hc) he
  refine ⟨List.pairwise_flatMap.mpr ⟨fun c hc => pairwise_entitiesOf (hle hc), ?order⟩,
    fun e he => ?once, fun c hc => ?claimed, fun e he => ?title, .flatMap fun c hc => ?led⟩
  case order =>
    refine hpairs.imp_of_mem fun {c d} hc hd hcd e he e' he' => ?_
    have := Comment.Candidate.containsLine_iff.mp (hin hc he)
    have := Comment.Candidate.containsLine_iff.mp (hin hd he')
    omega
  case once =>
    obtain ⟨c, hc, he⟩ := List.mem_flatMap.mp he
    rw [List.countP_map]
    exact countP_containsLine hpairs hc (hin hc he)
  case claimed =>
    obtain ⟨c, hmem, rfl⟩ := List.mem_map.mp hc
    rw [(hfits c hmem).unclaimed, Bool.false_or, Bool.not_eq_true',
      List.isEmpty_eq_false_iff_exists_mem]
    constructor
    case mp =>
      rintro ⟨e, he⟩
      exact ⟨e, List.mem_flatMap.mpr ⟨c, hmem, he⟩, hin hmem he⟩
    case mpr =>
      rintro ⟨e, he, hl⟩
      obtain ⟨d, hd, he⟩ := List.mem_flatMap.mp he
      obtain rfl := eq_of_containsLine hpairs hmem hd hl (hin hd he)
      exact ⟨e, he⟩
  case title =>
    obtain ⟨c, hc, he⟩ := List.mem_flatMap.mp he
    have htitle := (isHeader_of_mem_entitiesOf (Buffer.wellFormed_ofChars text) e he).title
    exact ⟨title_ne_empty (hle hc) he, fun hn => (htitle _ hn).1 rfl, fun hn => (htitle _ hn).2 rfl⟩
  case led =>
    refine (led_entitiesOf (hle hc)).mono fun outer ho e he hm => ⟨hm, ?_⟩
    exact ⟨_, List.mem_map_of_mem hc, hin hc ho, hin hc he⟩

-- An enum with a member and a function in one comment, and a comment without a header.
theorem recognize_in_order_enum :
    let buf := Buffer.ofChars "/* Enum: Color\n   Red - first\n   Function: F\n*/\n// None.".toList
    let scan := Comment.scan buf Profile.builtinC.prepared (.empty buf) .never 0
    let cs : List Comment.Candidate := [⟨1, 5, false, false, false⟩, ⟨5, 6, false, false, false⟩]
    let (comments, entities) := recognize buf scan.tags .builtin cs
    scan.outcome = .completed cs ∧ comments.map (·.claimed) = [true, false] ∧
      entities.map (fun e => (e.title, e.line, e.isEmbedded)) =
        [("Color", 1, false), ("Red", 2, true), ("F", 3, false)] ∧
      entities.Pairwise (·.line < ·.line) := by
  intro buf scan cs
  have h : scan.outcome = .completed cs := by decide +kernel
  exact ⟨h, by decide +kernel, by decide +kernel, (recognize_in_order _ _ .builtin h).1⟩

end SourceDocs.Header

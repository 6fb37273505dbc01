import SourceDocs.Proofs.LineBreak.Comment
import SourceDocs.Proofs.LineBreak.Prototype
import SourceDocs.Proofs.LineBreak.Search
import SourceDocs.Resolve

namespace SourceDocs

open Buffer

namespace LineBreak

variable (b : LineBreak)

def string (s : String) : String :=
  String.ofList (b.rewrite s.toList)

def entity (e : Entity) : Entity :=
  { e with prototype := e.prototype.map b.string, parsed := e.parsed.map b.prototype }

end LineBreak

namespace Poll

variable {α β : Type}

-- All that the computation can end with satisfies `P`.
def Yields (x : Poll α) (P : α → Prop) : Prop :=
  ∀ signal n a m, x signal n = (.completed a, m) → P a

theorem Yields.pure {P : α → Prop} {a : α} (h : P a) : Yields (Pure.pure a) P := by
  intro signal n _ m ha
  cases ha
  exact h

theorem Yields.bind {P : α → Prop} {Q : β → Prop} {x : Poll α} {f : α → Poll β}
    (hx : x.Yields P) (hf : ∀ a, P a → (f a).Yields Q) : (x >>= f).Yields Q := by
  intro signal n c m hc
  rcases h : x signal n with ⟨a | _, k⟩
  case completed =>
    rw [bind_completed h] at hc
    exact hf a (hx signal n a k h) signal k c m hc
  case cancelled =>
    rw [bind_cancelled h] at hc
    cases hc

theorem yields_true (x : Poll α) : x.Yields fun _ => True :=
  fun _ _ _ _ _ => trivial

end Poll

structure Entity.IsHeader (e : Entity) : Prop where
  title : Unbroken e.title.toList
  prototype : e.prototype = none
  parsed : e.parsed = none

-- An entity whose prototype has been found but not taken apart yet.
structure Entity.IsFound (buf : Buffer) (e : Entity) : Prop where
  title : Unbroken e.title.toList
  prototype : ∀ t ∈ e.prototype, Prototype.BrokenInStrings buf t.toList
  parsed : e.parsed = none

theorem Entity.IsHeader.isFound {e : Entity} (h : e.IsHeader) (buf : Buffer) : e.IsFound buf where
  title := h.title
  prototype := by simp [h.prototype]
  parsed := h.parsed

namespace Header

theorem withoutStar_subset (cs : List Char) : withoutStar cs ⊆ cs := by
  unfold withoutStar
  split
  case h_1 rest =>
    split
    · exact fun c hc => .tail _ ((List.dropWhile_sublist _).subset hc)
    · exact List.Subset.refl _
  case h_2 => exact List.Subset.refl _

theorem unbroken_lineText {buf : Buffer} (hw : buf.WellFormed) (tags : Comment.Tags) (line : Nat) :
    Unbroken (lineText buf tags line) := by
  unfold lineText
  dsimp only
  split
  case isTrue => exact unbroken_nil
  case isFalse =>
    split
    case isTrue => exact unbroken_nil
    case isFalse =>
      refine Unbroken.subset ?_ (List.Subset.trans (withoutStar_subset _) (Text.trim_isInfix _).subset)
      intro c hc
      obtain ⟨i, hi, hc⟩ := List.mem_flatMap.mp hc
      have hi := (List.mem_filter.mp hi).2
      simp only [Bool.and_eq_true, Bool.not_eq_true'] at hi
      exact hw.unbroken hi.2 c hc

theorem rest_subset_of_keyword? {text keyword rest : List Char}
    (h : keyword? text = some (keyword, rest)) : rest ⊆ text := by
  have hdrop (cs : List Char) : cs.dropWhile Char.isAlpha ⊆ cs := (List.dropWhile_sublist _).subset
  unfold keyword? at h
  dsimp only at h
  split at h
  case isTrue => cases h
  case isFalse =>
    split at h
    case h_1 heq =>
      cases h
      exact fun c hc => hdrop text (heq ▸ .tail _ hc)
    case h_2 more heq =>
      split at h
      case h_1 hmore =>
        split at h
        · cases h
        · cases h
          exact fun c hc => hdrop text (heq ▸ .tail _ (hdrop more (hmore ▸ .tail _ hc)))
      case h_2 => cases h
    case h_3 => cases h

theorem subset_of_afterSpaces? {text rest : List Char} (h : afterSpaces? text = some rest) :
    rest ⊆ text := by
  unfold afterSpaces? at h
  split at h
  case h_1 =>
    split at h
    · cases h
      exact fun c hc => .tail _ ((List.dropWhile_sublist _).subset hc)
    · cases h
  case h_2 => cases h

-- Titles are parts of lines.
theorem title_subset_of_header? {kinds : KindTable} {text title : List Char} {kind : Kind}
    (h : header? kinds text = some (kind, title)) : title ⊆ text := by
  simp only [header?, bind, Option.bind_eq_some_iff] at h
  obtain ⟨⟨keyword, rest⟩, hk, after, ha, _, _, _, _, heq⟩ := h
  obtain rfl := congrArg Prod.snd (Option.some.inj heq)
  exact fun c hc =>
    rest_subset_of_keyword? hk (subset_of_afterSpaces? ha (dropEndWhile_subset _ _ hc))

theorem name_subset_of_member? {text name description : List Char}
    (h : member? text = some (name, description)) : name ⊆ text := by
  simp only [member?, bind, Option.bind_eq_some_iff] at h
  obtain ⟨_, _, after, ha, h⟩ := h
  split at h
  case h_1 =>
    obtain ⟨_, _, heq⟩ := Option.bind_eq_some_iff.mp h
    obtain rfl := congrArg Prod.fst (Option.some.inj heq)
    exact (List.takeWhile_sublist _).subset
  case h_2 => cases h

theorem unbroken_sections {kinds : KindTable} {ls : List (Nat × List Char)}
    (h : ∀ l ∈ ls, Unbroken l.2) :
    (∀ t ∈ (sections kinds ls).1, Unbroken t) ∧
      ∀ s ∈ (sections kinds ls).2, Unbroken s.title ∧ ∀ t ∈ s.body, Unbroken t := by
  induction ls
  case nil => simp [sections]
  case cons l ls hi =>
    obtain ⟨line, text⟩ := l
    have ⟨htext, hls⟩ := List.forall_mem_cons.mp h
    have ⟨hlead, hfound⟩ := hi hls
    -- A header takes the lines up to the next one as its body.
    rw [sections]
    dsimp only
    split
    case h_1 kind title hh =>
      refine ⟨by simp, List.forall_mem_cons.mpr ⟨⟨?_, hlead⟩, hfound⟩⟩
      exact htext.subset (title_subset_of_header? hh)
    case h_2 => exact ⟨List.forall_mem_cons.mpr ⟨htext, hlead⟩, hfound⟩

theorem isHeader_ofHeader {title : List Char} (h : Unbroken title) (kind : String) (line : Nat)
    (body : List Char) :
    ((Entity.ofHeader (String.ofList title) kind line).withBody body).IsHeader where
  title := by simpa [Entity.ofHeader, Entity.withBody] using h
  prototype := rfl
  parsed := rfl

theorem isHeader_of_mem_members {line : Nat} {body : List (List Char)}
    (h : ∀ t ∈ body, Unbroken t) : ∀ e ∈ members line body, e.IsHeader := by
  induction body generalizing line
  case nil => simp [members]
  case cons text rest hi =>
    have ⟨htext, hrest⟩ := List.forall_mem_cons.mp h
    rw [members]
    split
    case h_1 hm =>
      refine List.forall_mem_cons.mpr ⟨?_, hi hrest⟩
      have hname := htext.subset (name_subset_of_member? hm)
      exact ⟨by simpa [Entity.ofHeader, Entity.withBody] using hname, rfl, rfl⟩
    case h_2 => exact hi hrest

theorem isHeader_of_mem_entitiesOf {buf : Buffer} (hw : buf.WellFormed) {tags : Comment.Tags}
    {kinds : KindTable} {c : Comment.Candidate} :
    ∀ e ∈ entitiesOf buf tags kinds c, e.IsHeader := by
  have hlines : ∀ l ∈ lines buf tags c, Unbroken l.2 := by
    intro l hl
    obtain ⟨line, _, rfl⟩ := List.mem_map.mp hl
    exact unbroken_lineText hw tags line
  intro e he
  obtain ⟨s, hs, he⟩ := List.mem_flatMap.mp he
  have ⟨htitle, hbody⟩ := (unbroken_sections hlines).2 s hs
  unfold Section.entities at he
  rcases List.mem_cons.mp he with rfl | he
  case inl => exact isHeader_ofHeader htitle _ _ _
  case inr =>
    split at he
    · exact isHeader_of_mem_members hbody e he
    · cases he

theorem isHeader_of_mem_recognize {buf : Buffer} (hw : buf.WellFormed) {tags : Comment.Tags}
    {kinds : KindTable} {comments : List Comment.Candidate} :
    ∀ e ∈ (recognize buf tags kinds comments).2, e.IsHeader := by
  intro e he
  obtain ⟨c, _, he⟩ := List.mem_flatMap.mp he
  exact isHeader_of_mem_entitiesOf hw e he

end Header

namespace Prototype

variable {b : LineBreak} {profile : Profile} {cs : List Char} {entities : Array Entity}

theorem any_entity {q : Entity → Bool} (hq : ∀ e, q (b.entity e) = q e) (k : Nat) :
    (entities.map b.entity)[k]?.any q = entities[k]?.any q := by
  cases hk : entities[k]? <;> simp [hk, hq]

-- The entity that a comment is for is found by its line alone.
theorem lastBefore_entity (entities : Array Entity) (endLine k : Nat) :
    lastBefore (entities.map b.entity) endLine k = lastBefore entities endLine k := by
  have hany (k : Nat) : (entities.map b.entity)[k]?.any (·.line < endLine) =
      entities[k]?.any (·.line < endLine) := any_entity (fun _ => rfl) k
  fun_induction lastBefore entities endLine k <;> rw [lastBefore, hany]
  case case1 h hi => rw [if_pos h, hi]
  case case2 h => rw [if_neg h]

theorem backToOuter_entity (entities : Array Entity) (startLine k : Nat) :
    backToOuter (entities.map b.entity) startLine k = backToOuter entities startLine k := by
  induction k
  case zero => rfl
  case succ k hi =>
    have hembedded : (entities.map b.entity)[k + 1]?.any (·.isEmbedded) =
        entities[k + 1]?.any (·.isEmbedded) := any_entity (fun _ => rfl) _
    have hline : (entities.map b.entity)[k]?.any (startLine ≤ ·.line) =
        entities[k]?.any (startLine ≤ ·.line) := any_entity (fun _ => rfl) k
    rw [backToOuter, hi, hembedded, hline, backToOuter]

theorem afterSearch_entity (entities : Array Entity) (target : Nat) (found : Option (List Char)) :
    afterSearch (entities.map b.entity) target (found.map b.rewrite) =
      (afterSearch entities target found).map b.entity := by
  cases found
  case none => rfl
  case some text =>
    refine Array.ext (by simp [afterSearch]) fun i hi hi' => ?_
    simp only [Option.map_some, afterSearch, Array.getElem_modify, Array.getElem_map]
    split
    · simp [LineBreak.entity, LineBreak.string]
    · rfl

-- Neither the title nor the kind is read from a prototype.
theorem wanted_entity (comment : Comment.Candidate) (k : Nat) :
    ((entities.map b.entity)[k]?.bind fun e =>
        (wantedEnders? profile comment e).map fun enders => (e.title, enders)) =
      entities[k]?.bind fun e =>
        (wantedEnders? profile comment e).map fun enders => (e.title, enders) := by
  cases hk : entities[k]?
  case none => simp [hk]
  case some e => simp [hk, wantedEnders?, LineBreak.entity]

theorem oneLine_of_wantedEnders? (hp : profile.SymbolsOneLine) {comment : Comment.Candidate}
    {e : Entity} {enders : Enders} (h : wantedEnders? profile comment e = some enders) :
    ∀ s ∈ enders.symbols, OneLine s := by
  unfold wantedEnders? at h
  split at h
  case isTrue =>
    obtain ⟨entry, hentry, rfl⟩ := Option.map_eq_some_iff.mp h
    exact hp.enders entry (List.mem_of_find?_eq_some hentry)
  case isFalse => cases h

-- A search changes nothing but the prototype that it finds.
theorem mem_afterSearch {target : Nat} {found : Option (List Char)} {e : Entity}
    (h : e ∈ afterSearch entities target found) :
    ∃ e' ∈ entities, e.title = e'.title ∧ e.parsed = e'.parsed ∧
      (e.prototype = e'.prototype ∨ ∃ text ∈ found, e.prototype = some (String.ofList text)) := by
  cases found
  case none => exact ⟨e, h, rfl, rfl, .inl rfl⟩
  case some text =>
    obtain ⟨i, hi, rfl⟩ := Array.mem_iff_getElem.mp h
    simp only [afterSearch, Array.size_modify] at hi
    refine ⟨_, Array.getElem_mem hi, ?_⟩
    simp only [afterSearch, Array.getElem_modify]
    split
    · exact ⟨rfl, rfl, .inr ⟨text, rfl, rfl⟩⟩
    · exact ⟨rfl, rfl, .inl rfl⟩

theorem isFound_afterSearch {buf : Buffer} (h : ∀ e ∈ entities, e.IsFound buf) (target : Nat)
    {found : Option (List Char)} (hf : ∀ t ∈ found, BrokenInStrings buf t) :
    ∀ e ∈ afterSearch entities target found, e.IsFound buf := by
  intro e he
  obtain ⟨e', he', htitle, hparsed, hprototype⟩ := mem_afterSearch he
  have hfound := h e' he'
  refine ⟨htitle ▸ hfound.title, fun t ht => ?_, hparsed.trans hfound.parsed⟩
  rcases hprototype with hprototype | ⟨text, hm, hprototype⟩
  case inl => exact hfound.prototype t (hprototype ▸ ht)
  case inr =>
    obtain rfl := Option.some.inj (hprototype.symm.trans ht)
    rw [String.toList_ofList]
    exact hf text hm

theorem find_yields {buf : Buffer} (hw : buf.WellFormed) (hp : profile.SymbolsOneLine)
    (title : List Char) (enders : Enders) (startLine endLine : Nat) :
    (find profile buf title enders startLine endLine).Yields fun found =>
      ∀ t ∈ found, BrokenInStrings buf t := by
  refine .bind (Poll.yields_true _) fun found _ => .pure fun t ht => ?_
  obtain ⟨s, _, rfl⟩ := Option.map_eq_some_iff.mp ht
  exact brokenInStrings_normalize hw hp s.1 s.2

theorem assignedFrom_yields {buf : Buffer} (hw : buf.WellFormed) (hp : profile.SymbolsOneLine)
    (k : Nat) (comments : List Comment.Candidate) (h : ∀ e ∈ entities, e.IsFound buf) :
    (assignedFrom profile buf k entities comments).Yields fun es => ∀ e ∈ es, e.IsFound buf := by
  induction comments generalizing k entities
  case nil =>
    have hpure : (pure entities.toList : Poll (List Entity)).Yields fun es =>
        ∀ e ∈ es, e.IsFound buf := .pure fun e he => h e (Array.mem_toList_iff.mp he)
    exact hpure
  case cons comment rest hi =>
    rw [assignedFrom_cons]
    dsimp only
    split
    case h_1 => exact hi _ h
    case h_2 =>
      exact .bind (find_yields hw hp _ _ _ _) fun found hf => hi _ (isFound_afterSearch h _ hf)

section Assignment

variable (hb : b = .crlf ∨ b = .cr) (hp : profile.SymbolsOneLine) (hr : '\r' ∉ cs)

include hb hp hr

-- The titles that are looked for are those from before the search, which only adds prototypes.
theorem assignedFrom_rewrite (k : Nat) (comments : List Comment.Candidate)
    (h : ∀ e ∈ entities, Unbroken e.title.toList) :
    assignedFrom profile (ofChars (b.rewrite cs)) k (entities.map b.entity) comments =
      assignedFrom profile (ofChars cs) k entities comments >>= fun es =>
        pure (es.map b.entity) := by
  induction comments generalizing k entities
  case nil =>
    have hnil (buf : Buffer) (es : Array Entity) :
        assignedFrom profile buf k es [] = pure es.toList := rfl
    rw [hnil, hnil, pure_bind, Array.toList_map]
  case cons comment rest hi =>
    rw [assignedFrom_cons, assignedFrom_cons]
    dsimp only
    rw [lastBefore_entity, backToOuter_entity, wanted_entity,
      (LineBreak.alike_rewrite hb hr).lineCount]
    split
    case h_1 => exact hi _ h
    case h_2 title enders hw =>
      obtain ⟨e, he, hw⟩ := Option.bind_eq_some_iff.mp hw
      obtain ⟨_, hw, heq⟩ := Option.map_eq_some_iff.mp hw
      cases heq
      rw [find_rewrite hb hp hr (h e (Array.mem_of_getElem? he)) (oneLine_of_wantedEnders? hp hw)]
      simp only [bind_assoc, pure_bind]
      congr 1
      funext found
      rw [afterSearch_entity]
      refine hi _ fun e he => ?_
      obtain ⟨e', he', htitle, -⟩ := mem_afterSearch he
      exact htitle ▸ h e' he'

end Assignment

end Prototype

namespace Resolve

variable (b : LineBreak) (setting : Setting)

def State.rewrite (state : State) : State :=
  { state with parent := state.parent.map b.entity }

-- Symbols are made from titles, and contexts from symbols.
theorem placeEmbedded_entity (state : State) (e : Entity) (title : Symbol) :
    placeEmbedded setting (state.rewrite b) (b.entity e) title =
      b.entity (placeEmbedded setting state e title) := by
  unfold placeEmbedded State.rewrite
  cases state.parent
  case none => rfl
  case some parent =>
    have hkind : (b.entity parent).kind = parent.kind := rfl
    simp only [Option.map_some, Option.filter_some, hkind]
    cases setting.isEnum parent.kind
    case false => rfl
    case true => cases setting.profile.enumValues <;> rfl

theorem placeOuter_entity (state : State) (e : Entity) (title : Symbol) :
    placeOuter setting (state.rewrite b) (b.entity e) title =
      (b.entity (placeOuter setting state e title).1,
        (placeOuter setting state e title).2.rewrite b) := by
  have hkind : (b.entity e).kind = e.kind := rfl
  unfold placeOuter
  simp only [hkind]
  cases ((setting.kinds.get? e.kind).map (·.scope)).getD .normal <;> rfl

theorem entities_entity (state : State) (es : List Entity) :
    entities setting (state.rewrite b) (es.map b.entity) =
      (entities setting state es).map b.entity := by
  induction es generalizing state
  case nil => rfl
  case cons e es hi =>
    have htitle : (b.entity e).title = e.title := rfl
    have hembedded : (b.entity e).isEmbedded = e.isEmbedded := rfl
    rw [List.map_cons, entities, htitle, hembedded, entities]
    cases Symbol.ofText? e.title.toList
    case none => exact hi state
    case some title =>
      cases e.isEmbedded
      case false => simp only [Bool.false_eq_true, if_false, placeOuter_entity, hi, List.map_cons]
      case true => simp only [if_true, placeEmbedded_entity, hi, List.map_cons]

theorem file_entity (es : List Entity) :
    file setting (es.map b.entity) = (file setting es).map b.entity :=
  entities_entity b setting .initial es

end Resolve
end SourceDocs

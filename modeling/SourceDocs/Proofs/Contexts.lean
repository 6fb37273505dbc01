import SourceDocs.Proofs.ScopeRules

namespace SourceDocs

namespace Context

variable {c : Context} {name : Symbol}

theorem head?_enclosing (s : Symbol) (h : s.segments ≠ []) : (enclosing s).head? = some s := by
  have hlen := List.length_pos_iff.mpr h
  rw [enclosing, List.head?_map, List.head?_reverse, List.getLast?_range, if_neg (by omega),
    Option.map_some, Nat.sub_add_cancel hlen, List.take_length]

-- The innermost scope comes first. A scope without segments is no different from the global one.
theorem head?_candidates (c : Context) (name : Symbol) :
    (c.candidates name).head? = some (name.under c.scope) := by
  cases hs : c.scope
  case none => simp [candidates, hs, Symbol.under]
  case some scope =>
    by_cases h : scope.segments = []
    case pos => simp [candidates, hs, enclosing, h, Symbol.under, Symbol.join]
    case neg => simp [candidates, hs, head?_enclosing scope h, Symbol.under]

theorem under_mem_candidates : name.under c.scope ∈ c.candidates name :=
  List.mem_of_head? (head?_candidates c name)

theorem self_mem_candidates : name ∈ c.candidates name :=
  List.mem_append_right _ List.mem_cons_self

end Context

namespace Resolve

open Context

variable {setting : Setting} {before : List Entity} {e p : Entity} {title : Symbol}

-- The symbol of an entity is among those that its title may mean in the context of its prototype,
-- and it is the first of them if the entity lives in the scope around it.
structure Setting.Reachable (setting : Setting) (e : Entity) (title symbol : Symbol) : Prop where
  symbol_eq : e.symbol = some symbol
  mem_candidates : symbol ∈ e.prototypeContext.candidates title
  head?_candidates (h : e.isEmbedded = true ∨ setting.scopeOf e.kind ≠ .alwaysGlobal) :
    (e.prototypeContext.candidates title).head? = some symbol

namespace Setting

theorem Placed.reachable_under {scope body : Option Symbol} {ofClass : Option Class}
    (h : setting.Placed e (title.under scope) ofClass scope body) :
    setting.Reachable e title (title.under scope) where
  symbol_eq := h.symbol_eq
  mem_candidates := h.prototype_eq ▸ under_mem_candidates (c := ⟨scope, _⟩)
  head?_candidates _ := h.prototype_eq ▸ Context.head?_candidates ⟨scope, _⟩ title

theorem Placed.reachable_alwaysGlobal {scope body : Option Symbol} {ofClass : Option Class}
    (h : setting.Placed e title ofClass scope body) (ho : e.isEmbedded = false)
    (hs : setting.scopeOf e.kind = .alwaysGlobal) : setting.Reachable e title title where
  symbol_eq := h.symbol_eq
  mem_candidates := self_mem_candidates
  head?_candidates := by simp [ho, hs]

theorem Rules.exists_reachable (h : setting.Rules before e title) :
    ∃ symbol, setting.Reachable e title symbol := by
  cases h
  case normal placed => exact ⟨_, placed.reachable_under⟩
  case enum placed => exact ⟨_, placed.reachable_under⟩
  case alwaysGlobal ho hs placed => exact ⟨_, placed.reachable_alwaysGlobal ho hs⟩
  case start placed | stop placed =>
    -- The global scope adds nothing to the title.
    have placed : setting.Placed e (title.under none) _ none _ := placed
    exact ⟨_, placed.reachable_under⟩
  case member placed => exact ⟨_, placed.reachable_under⟩
  case embedded placed => exact ⟨_, placed.reachable_under⟩

end Setting

theorem rules_of_file_eq {es pre post : List Entity} (h : file setting es = pre ++ e :: post) :
    ∃ title, titleOf? e = some title ∧ setting.Rules pre e title :=
  entities_rules .initial h

theorem file_eq_take_append (setting : Setting) (es : List Entity)
    (i : Fin (file setting es).length) : file setting es =
      (file setting es).take i ++ (file setting es).get i :: (file setting es).drop (i + 1) := by
  simp

theorem file_reachable (setting : Setting) (es : List Entity) (i : Fin (file setting es).length) :
    ∃ title symbol, titleOf? ((file setting es).get i) = some title ∧
      setting.Reachable ((file setting es).get i) title symbol := by
  obtain ⟨title, ht, hr⟩ := rules_of_file_eq (file_eq_take_append setting es i)
  obtain ⟨symbol, h⟩ := hr.exists_reachable
  exact ⟨title, symbol, ht, h⟩

structure LivesIn (e p : Entity) : Prop where
  prototype_eq : e.prototypeContext = p.bodyContext
  body_eq : e.bodyContext = p.bodyContext
  symbol_eq : ∃ title, titleOf? e = some title ∧
    e.symbol = some (title.under p.bodyContext.scope)

-- Do the members of an enum live in its body? The language alone says where they are placed, and
-- the body of an enum of normal scope is that place. The body of any other enum goes by the scope
-- of its kind.
def Setting.Houses (setting : Setting) (p : Entity) : Prop :=
  match setting.scopeOf p.kind with
  | .normal => True
  | .start => setting.profile.enumValues ≠ .global
  | .stop => setting.profile.enumValues ≠ .underType
  | .alwaysGlobal =>
    memberScope p.symbol p.bodyContext.scope setting.profile.enumValues = p.bodyContext.scope

theorem exists_of_outer? (h : outer? before = some p) : ∃ pre mid, before = pre ++ p :: mid ∧
    p.isEmbedded = false ∧ ∀ e ∈ mid, e.isEmbedded = true := by
  obtain ⟨hp, after, rest, hb, hm⟩ := List.find?_eq_some_iff_append.mp h
  refine ⟨rest.reverse, after.reverse, ?_, by simpa using hp, fun e he => ?_⟩
  · simpa using congrArg List.reverse hb
  · simpa using hm e (List.mem_reverse.mp he)

-- Embedded entities leave the scope alone.
theorem ambientScope_append {mid : List Entity} (h : ∀ e ∈ mid, e.isEmbedded = true) :
    setting.ambientScope (before ++ mid) = setting.ambientScope before := by
  have hm : mid.reverse.find? setting.decides = none := by
    simp +contextual [Setting.decides, h]
  simp [Setting.ambientScope, Setting.decider?, hm]

theorem ambientScope_concat (ho : e.isEmbedded = false) :
    setting.ambientScope (before ++ [e]) =
      match setting.scopeOf e.kind with
      | .normal | .alwaysGlobal => setting.ambientScope before
      | .start => titleOf? e
      | .stop => none := by
  cases hs : setting.scopeOf e.kind <;>
    simp [Setting.ambientScope, decider?_concat, Setting.decides, ho, hs]

namespace Setting.Rules

-- The members of an enum are placed in the scope that holds after it.
theorem houses_iff (h : setting.Rules before p title) (ht : titleOf? p = some title)
    (ho : p.isEmbedded = false) (hk : setting.isEnum p.kind = true) :
    memberScope p.symbol (setting.ambientScope (before ++ [p])) setting.profile.enumValues =
      p.bodyContext.scope ↔ setting.Houses p := by
  rw [ambientScope_concat ho, Houses]
  cases h
  case normal hs hplain _ => rw [hk] at hplain; cases hplain
  case enum hs _ placed => simp [hs, placed.symbol_eq, placed.body_eq]
  case alwaysGlobal hs placed => simp [hs, placed.body_eq]
  case start hs placed =>
    simp only [hs, ht, placed.symbol_eq, placed.body_eq]
    cases setting.profile.enumValues <;> simp [memberScope]
  case stop hs placed =>
    simp only [hs, placed.symbol_eq, placed.body_eq]
    cases setting.profile.enumValues <;> simp [memberScope]
  case member he _ _ _ _ => rw [ho] at he; cases he
  case embedded he _ _ => rw [ho] at he; cases he

theorem member_placed (h : setting.Rules before e title) (he : e.isEmbedded = true)
    (hp : outer? before = some p) (hk : setting.isEnum p.kind = true) :
    let scope := memberScope p.symbol (setting.ambientScope before) setting.profile.enumValues
    setting.Placed e (title.under scope) (setting.ambientClass before) scope scope := by
  cases h
  case member parent hparent _ placed =>
    obtain rfl := Option.some.inj (hp.symm.trans hparent)
    exact placed
  case embedded hplain _ => rw [hplain p hp] at hk; cases hk
  case normal ho _ _ _ | enum ho _ _ _ | alwaysGlobal ho _ _ | start ho _ _ | stop ho _ _ =>
    rw [he] at ho
    cases ho

theorem usings_bodyContext (h : setting.Rules before e title) :
    e.bodyContext.usings = setting.usings := by
  cases h <;> rw [Setting.Placed.body_eq ‹_›]

end Setting.Rules

theorem Setting.Placed.livesIn_iff {scope : Option Symbol} {ofClass : Option Class}
    (h : setting.Placed e (title.under scope) ofClass scope scope) (ht : titleOf? e = some title)
    (hu : p.bodyContext.usings = setting.usings) :
    LivesIn e p ↔ scope = p.bodyContext.scope := by
  constructor
  case mp => exact fun hl => congrArg Context.scope (h.body_eq.symm.trans hl.body_eq)
  case mpr =>
    intro hs
    have hp : p.bodyContext = ⟨scope, setting.usings⟩ := by rw [hs, ← hu]
    exact ⟨h.prototype_eq.trans hp.symm, h.body_eq.trans hp.symm, title, ht, hs ▸ h.symbol_eq⟩

-- The members of an enum live in one scope, where their symbols are. It is the scope of the body of
-- the enum exactly if the enum houses its members.
theorem member_lives_in_body_iff (setting : Setting) (es : List Entity)
    (i : Fin (file setting es).length) (p : Entity)
    (he : ((file setting es).get i).isEmbedded = true)
    (hp : outer? ((file setting es).take i) = some p) (hk : setting.isEnum p.kind = true) :
    LivesIn ((file setting es).get i) ((file setting es).get i) ∧
      (LivesIn ((file setting es).get i) p ↔ setting.Houses p) := by
  have hfile := file_eq_take_append setting es i
  obtain ⟨title, ht, hr⟩ := rules_of_file_eq hfile
  obtain ⟨pre, mid, hb, ho, hm⟩ := exists_of_outer? hp
  rw [hb, List.append_assoc, List.cons_append] at hfile
  obtain ⟨title', ht', hr'⟩ := rules_of_file_eq hfile
  have hplaced := hr.member_placed he hp hk
  have hscope : setting.ambientScope ((file setting es).take i) =
      setting.ambientScope (pre ++ [p]) := by
    rw [hb, List.append_cons, ambientScope_append hm]
  constructor
  case left =>
    rw [hplaced.livesIn_iff ht hr.usings_bodyContext, hplaced.body_eq]
  case right =>
    rw [hplaced.livesIn_iff ht hr'.usings_bodyContext, hscope]
    exact hr'.houses_iff ht' ho hk

-- The enum returns to the global scope, and its member lives there.
theorem member_lives_in_body_iff_stop :
    let setting : Setting :=
      ⟨⟨[⟨"flags", [], .stop, true, none⟩]⟩, { Profile.plain with enumValues := .underParent }, []⟩
    let es : List Entity := [.ofHeader "Shape" "class" 1, .ofHeader "Corner" "flags" 2,
      { Entity.ofHeader "Round" "constant" 3 with isEmbedded := true }]
    ∃ (i : Fin (file setting es).length) (p : Entity),
      ((file setting es).get i).isEmbedded = true ∧ outer? ((file setting es).take i) = some p ∧
        setting.isEnum p.kind = true ∧ LivesIn ((file setting es).get i) p := by
  intro setting es
  have hlen : 2 < (file setting es).length := by decide +kernel
  have hkind : (outer? ((file setting es).take 2)).map (·.kind) = some "flags" := by
    decide +kernel
  obtain ⟨p, hp, hpk⟩ := Option.map_eq_some_iff.mp hkind
  have he : ((file setting es).get ⟨2, hlen⟩).isEmbedded = true := by decide +kernel +revert
  have hk : setting.isEnum p.kind = true := by rw [hpk]; decide
  refine ⟨⟨2, hlen⟩, p, he, hp, hk, ?_⟩
  refine (member_lives_in_body_iff setting es ⟨2, hlen⟩ p he hp hk).2.mpr ?_
  have hs : setting.scopeOf "flags" = .stop := by decide
  simp only [Setting.Houses, hpk, hs]
  decide

-- The body of an enum that is always global is looked up in the scope around it, but its members
-- are placed under it.
theorem member_outside_body :
    let setting : Setting := ⟨⟨[⟨"flags", [], .alwaysGlobal, true, none⟩]⟩, .plain, []⟩
    let es : List Entity := [.ofHeader "Color" "flags" 1,
      { Entity.ofHeader "Red" "constant" 2 with isEmbedded := true }]
    setting.kinds.validate = .ok () ∧ ∃ (i : Fin (file setting es).length) (p : Entity),
      ((file setting es).get i).isEmbedded = true ∧ outer? ((file setting es).take i) = some p ∧
        setting.isEnum p.kind = true ∧ ¬LivesIn ((file setting es).get i) p := by
  intro setting es
  have hlen : 1 < (file setting es).length := by decide +kernel
  have he : ((file setting es).get ⟨1, hlen⟩).isEmbedded = true := by decide +kernel +revert
  have hred : ((file setting es).get ⟨1, hlen⟩).bodyContext.scope = some ⟨["Color"]⟩ := by
    decide +kernel +revert
  have hbody : (outer? ((file setting es).take 1)).map (fun p => (p.kind, p.bodyContext.scope)) =
      some ("flags", none) := by
    decide +kernel
  obtain ⟨p, hp, hpk⟩ := Option.map_eq_some_iff.mp hbody
  obtain ⟨hkind, hscope⟩ := Prod.mk.inj hpk
  refine ⟨rfl, ⟨1, hlen⟩, p, he, hp, by rw [hkind]; decide, fun h => ?_⟩
  have heq : ((file setting es).get ⟨1, hlen⟩).bodyContext.scope = p.bodyContext.scope :=
    congrArg Context.scope h.body_eq
  rw [hred, hscope] at heq
  cases heq

end Resolve
end SourceDocs

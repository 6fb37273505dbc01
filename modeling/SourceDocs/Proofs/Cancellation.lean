import Mathlib
import SourceDocs.Pipeline
import SourceDocs.Profile.Builtin

namespace SourceDocs

namespace Poll

variable {α β : Type}

-- A computation that stops exactly when one of its own polls says so.
structure Obedient (x : Poll α) : Prop where
  le_polls : ∀ signal n, n ≤ (x signal n).2
  -- Nothing tells it anything but the answers to its own polls.
  own_answers : ∀ {s t : Signal} {n m : Nat}, (∀ k, n + k < (x s n).2 → t (m + k) = s (n + k)) →
    (x t m).1 = (x s n).1 ∧ (x t m).2 + n = (x s n).2 + m
  cancelled_iff : ∀ signal n,
    (x signal n).1 = .cancelled ↔ ∃ k, n ≤ k ∧ k < (x signal n).2 ∧ signal k = true

theorem pure_apply (a : α) (signal : Signal) (n : Nat) :
    (pure a : Poll α) signal n = (.completed a, n) :=
  rfl

theorem check_apply (signal : Signal) (n : Nat) :
    check signal n = (if signal n then .cancelled else .completed (), n + 1) :=
  rfl

theorem bind_completed {x : Poll α} {f : α → Poll β} {signal : Signal} {n m : Nat} {a : α}
    (h : x signal n = (.completed a, m)) : (x >>= f) signal n = f a signal m := by
  simp only [bind, h]

theorem bind_cancelled {x : Poll α} {f : α → Poll β} {signal : Signal} {n m : Nat}
    (h : x signal n = (.cancelled, m)) : (x >>= f) signal n = (.cancelled, m) := by
  simp only [bind, h]

theorem check_bind_apply (f : Unit → Poll β) (signal : Signal) (n : Nat) :
    (check >>= f) signal n = if signal n then (.cancelled, n + 1) else f () signal (n + 1) := by
  cases h : signal n <;> simp [bind, check, h]

instance : LawfulMonad Poll :=
  LawfulMonad.mk' Poll
    (fun x => by
      funext signal n
      change (x >>= fun a => pure a) signal n = x signal n
      rcases h : x signal n with ⟨_ | _, m⟩
      · exact bind_completed h
      · exact bind_cancelled h)
    (fun _ _ => rfl)
    (fun x f g => by
      funext signal n
      rcases h : x signal n with ⟨_ | _, m⟩ <;> simp only [bind, h])

namespace Obedient

theorem pure (a : α) : Obedient (Pure.pure a : Poll α) where
  le_polls _ _ := Nat.le_refl _
  own_answers _ := by
    simp only [pure_apply, true_and]
    omega
  cancelled_iff _ n := by
    simp only [pure_apply, reduceCtorEq, false_iff]
    rintro ⟨k, _, _, _⟩
    omega

theorem check : Obedient Poll.check where
  le_polls _ n := by simp [check_apply]
  own_answers {s t n m} h := by
    have := h 0 (by simp [check_apply])
    simp_all [check_apply]
    omega
  cancelled_iff signal n := by
    simp only [check_apply]
    constructor
    case mp =>
      intro h
      cases hs : signal n <;> simp [hs] at h
      exact ⟨n, by omega, by omega, hs⟩
    case mpr =>
      rintro ⟨k, _, _, hk⟩
      obtain rfl : k = n := by omega
      simp [hk]

variable {x : Poll α} {f : α → Poll β}

-- Until its first part is stopped, a sequence makes the polls of the first part and then those of
-- the second, so both parts see their own answers.
theorem bind (hx : Obedient x) (hf : ∀ a, Obedient (f a)) : Obedient (x >>= f) where
  le_polls signal n := by
    have hn := hx.le_polls signal n
    rcases h : x signal n with ⟨a | _, m⟩ <;> simp only [h] at hn
    case completed => exact bind_completed h ▸ Nat.le_trans hn ((hf a).le_polls signal m)
    case cancelled => exact bind_cancelled h ▸ hn
  own_answers {s t n m} hst := by
    rcases h : x s n with ⟨a | _, n'⟩
    case completed =>
      simp only [bind_completed h] at hst ⊢
      have hle := (hf a).le_polls s n'
      have hn := hx.le_polls s n
      simp only [h] at hn
      have hm := hx.own_answers (s := s) (t := t) (n := n) (m := m) fun k hk =>
        hst k (by simp only [h] at hk; omega)
      rcases h' : x t m with ⟨b, m'⟩
      simp only [h, h'] at hm
      obtain ⟨rfl, hm⟩ := hm
      rw [bind_completed h']
      have ⟨h₁, h₂⟩ := (hf a).own_answers (s := s) (t := t) (n := n') (m := m') fun k hk => by
        have := hst (n' - n + k) (by omega)
        rwa [show m + (n' - n + k) = m' + k by omega,
          show n + (n' - n + k) = n' + k by omega] at this
      exact ⟨h₁, by omega⟩
    case cancelled =>
      simp only [bind_cancelled h] at hst ⊢
      have hm := hx.own_answers (s := s) (t := t) (n := n) (m := m) fun k hk =>
        hst k (by simpa [h] using hk)
      rcases h' : x t m with ⟨b, m'⟩
      simp only [h, h'] at hm
      obtain ⟨rfl, hm⟩ := hm
      rw [bind_cancelled h']
      exact ⟨rfl, hm⟩
  cancelled_iff signal n := by
    have hc := hx.cancelled_iff signal n
    have hn := hx.le_polls signal n
    rcases h : x signal n with ⟨a | _, m⟩ <;> simp only [h] at hc hn
    case completed =>
      -- The first part has not been stopped, so none of its answers says stop.
      have hle := (hf a).le_polls signal m
      rw [bind_completed h, (hf a).cancelled_iff]
      constructor
      case mp =>
        rintro ⟨k, hk, hk', hs⟩
        exact ⟨k, by omega, hk', hs⟩
      case mpr =>
        rintro ⟨k, hk, hk', hs⟩
        by_cases hkm : k < m
        case pos => simpa using hc.mpr ⟨k, hk, hkm, hs⟩
        case neg => exact ⟨k, by omega, hk', hs⟩
    case cancelled =>
      rw [bind_cancelled h]
      simpa using hc

theorem map (hx : Obedient x) (g : α → β) : Obedient (x >>= fun a => Pure.pure (g a)) :=
  hx.bind fun _ => .pure _

theorem ite {c : Prop} [Decidable c] {y : Poll α} (hx : Obedient x) (hy : Obedient y) :
    Obedient (if c then x else y) := by
  split
  · exact hx
  · exact hy

theorem run_cancelled_iff (hx : Obedient x) (signal : Signal) :
    (x.run signal).1 = .cancelled ↔ ∃ k < (x.run signal).2, signal k = true := by
  simpa [run] using hx.cancelled_iff signal 0

-- A signal that agrees on the polls of a run leads to the same run.
theorem run_congr (hx : Obedient x) {s t : Signal} (h : ∀ k < (x.run s).2, t k = s k) :
    x.run t = x.run s := by
  have ⟨h₁, h₂⟩ := hx.own_answers (s := s) (t := t) (n := 0) (m := 0) fun k hk => by
    simpa using h k (by simpa [run] using hk)
  exact Prod.ext h₁ (by simpa [run] using h₂)

theorem run_eq_never (hx : Obedient x) {signal : Signal} (h : (x.run signal).1 ≠ .cancelled) :
    x.run signal = x.run .never := by
  refine (hx.run_congr fun k hk => ?_).symm
  cases hs : signal k
  case false => rfl
  case true => exact absurd (hx.run_cancelled_iff signal |>.mpr ⟨k, hk, hs⟩) h

-- What has been completed was never told to stop.
theorem never_of_completed (hx : Obedient x) {signal : Signal} {n m : Nat} {a : α}
    (h : x signal n = (.completed a, m)) : (x.run .never).1 = .completed a := by
  have hgo (k : Nat) (hk : n + k < (x signal n).2) : Signal.never (0 + k) = signal (n + k) := by
    cases hs : signal (n + k)
    case false => rfl
    case true =>
      have := hx.cancelled_iff signal n |>.mpr ⟨n + k, Nat.le_add_right .., hk, hs⟩
      rw [h] at this
      cases this
  exact (hx.own_answers hgo).1.trans (congrArg Prod.fst h)

theorem run_never_completed (hx : Obedient x) : ∃ a, (x.run .never).1 = .completed a := by
  cases h : (x.run .never).1
  case completed a => exact ⟨a, rfl⟩
  case cancelled =>
    have ⟨_, _, hk⟩ := hx.run_cancelled_iff _ |>.mp h
    simp [Signal.never] at hk

theorem run_first_stop (hx : Obedient x) {signal : Signal} {n : Nat}
    (hb : ∀ k < n, signal k = false) (hn : signal n = true) :
    (x.run signal).1 = .cancelled ↔ n < (x.run .never).2 := by
  have ⟨a, ha⟩ := hx.run_never_completed
  constructor
  case mp =>
    intro hc
    by_contra hle
    have := hx.run_congr (s := .never) (t := signal) fun k hk => hb k (by omega)
    rw [this, ha] at hc
    cases hc
  case mpr =>
    intro hlt
    by_contra hc
    have := hx.run_eq_never hc
    exact hc <| hx.run_cancelled_iff signal |>.mpr ⟨n, this ▸ hlt, hn⟩

end Obedient
end Poll

namespace Comment

variable (buf : Buffer)

def scanned (tags : Tags) (rs : List (Option Reading)) : Poll (List Candidate × Tags) :=
  fun signal n =>
    let s := scanReadings buf signal tags n rs
    (s.outcome.map (·, s.tags), s.polls)

theorem scanned_none_cons (tags : Tags) (rest : List (Option Reading)) :
    scanned buf tags (none :: rest) = Poll.check >>= fun _ => scanned buf tags rest := by
  funext signal n
  rw [Poll.check_bind_apply]
  cases h : signal n <;> simp [scanned, scanReadings, h, Outcome.map]

theorem scanned_some_cons (tags : Tags) (r : Reading) (rest : List (Option Reading)) :
    scanned buf tags (some r :: rest) = Poll.check >>= fun _ =>
      scanned buf (r.tag buf tags) rest >>= fun found =>
        pure (r.candidate.toList ++ found.1, found.2) := by
  funext signal n
  rw [Poll.check_bind_apply]
  cases h : signal n
  case true => simp [scanned, scanReadings, h, Outcome.map]
  case false =>
    cases hs : (scanReadings buf signal (r.tag buf tags) (n + 1) rest).outcome <;>
      simp [scanned, scanReadings, h, hs, Outcome.map, bind, pure]

theorem scanned_obedient (tags : Tags) (rs : List (Option Reading)) :
    (scanned buf tags rs).Obedient := by
  induction rs generalizing tags
  case nil => exact .pure ([], tags)
  case cons r rest hi =>
    cases r
    case none => exact scanned_none_cons buf tags rest ▸ .bind .check fun _ => hi tags
    case some r =>
      rw [scanned_some_cons]
      exact .bind .check fun _ => .map (hi _) _

theorem candidates_obedient (profile : Profile) : (candidates buf profile).Obedient :=
  scanned_obedient buf (.empty buf) (readings buf profile 1)

end Comment

namespace Prototype

variable (profile : Profile) (buf : Buffer)

theorem findEnder_obedient (enders : Enders) (limit : Nat) (extended : Bool) (i : Nat) :
    (findEnder profile buf enders limit extended i).Obedient := by
  fun_induction findEnder profile buf enders limit extended i
  case case1 hi => exact .bind .check fun _ => .ite (.pure _) hi
  case case2 hi => exact hi
  case case3 => exact .pure _
  case case4 hi => exact hi
  case case5 hi => exact hi
  case case6 => exact .pure none

theorem find_obedient (title : List Char) (enders : Enders) (startLine endLine : Nat) :
    (find profile buf title enders startLine endLine).Obedient := by
  refine .map ?_ _
  unfold span
  split
  · exact .pure none
  · exact .map (findEnder_obedient ..) _

def assignedFrom (k : Nat) (entities : Array Entity) (comments : List Comment.Candidate) :
    Poll (List Entity) :=
  fun signal n =>
    let a := assignFrom profile buf signal n k entities comments
    (a.outcome.map fun _ => a.entities.toList, a.polls)

def afterSearch (entities : Array Entity) (target : Nat) : Option (List Char) → Array Entity
  | none => entities
  | some cs => entities.modify target fun e => { e with prototype := some (String.ofList cs) }

-- Each comment leads to one search at most, which may give one entity a prototype.
theorem assignedFrom_cons (k : Nat) (entities : Array Entity) (comment : Comment.Candidate)
    (rest : List Comment.Candidate) :
    assignedFrom profile buf k entities (comment :: rest) =
      let k := lastBefore entities comment.endLine k
      let target := backToOuter entities comment.startLine k
      let endLine := (rest.head?.map (·.startLine)).getD (buf.lineCount + 1)
      match entities[target]?.bind fun e =>
          (wantedEnders? profile comment e).map fun enders => (e.title, enders) with
      | none => assignedFrom profile buf k entities rest
      | some (title, enders) =>
        find profile buf title.toList enders comment.endLine endLine >>= fun found =>
          assignedFrom profile buf k (afterSearch entities target found) rest := by
  funext signal n
  rw [assignedFrom, assignFrom]
  dsimp only
  split
  case h_1 h =>
    simp only [h]
    rfl
  case h_2 title enders h =>
    simp only [h]
    rcases hf : find profile buf title.toList enders comment.endLine
      ((rest.head?.map (·.startLine)).getD (buf.lineCount + 1)) signal n with ⟨(_ | cs) | _, m⟩
    case completed.none => simp [bind, hf, assignedFrom, afterSearch]
    case completed.some => simp [bind, hf, assignedFrom, afterSearch]
    case cancelled => simp [bind, hf, Outcome.map]

theorem assignedFrom_obedient (k : Nat) (entities : Array Entity)
    (comments : List Comment.Candidate) :
    (assignedFrom profile buf k entities comments).Obedient := by
  induction comments generalizing k entities
  case nil => exact .pure entities.toList
  case cons comment rest hi =>
    rw [assignedFrom_cons]
    dsimp only
    split
    case h_1 => exact hi _ _
    case h_2 => exact .bind (find_obedient ..) fun _ => hi _ _

theorem assigned_obedient (comments : List Comment.Candidate) (entities : List Entity) :
    (assigned profile buf comments entities).Obedient :=
  assignedFrom_obedient profile buf 0 entities.toArray comments

end Prototype

namespace Pipeline

variable (p : Pipeline)

theorem readBasic_obedient (buf : Buffer) : (p.readBasic buf).Obedient :=
  .bind (Comment.candidates_obedient ..) fun _ => .map (Prototype.assigned_obedient ..) _

theorem readFull_obedient {parser : String → Poll (List Entity)} {source : String}
    (h : (parser source).Obedient) (buf : Buffer) : (p.readFull parser buf source).Obedient :=
  .bind (Comment.candidates_obedient ..) fun _ => .map h _

-- What a parser for the language does is unknown, so its obedience is part of the hypotheses.
theorem parse_obedient {p : Pipeline} (hc : p.method ≠ .container)
    (hf : ∀ parser, p.method = .full parser → ∀ source, (parser source).Obedient)
    (path source : String) : ∃ run, p.parse path source = .ok run ∧ run.Obedient := by
  unfold parse
  dsimp only
  split
  case h_1 h => exact absurd h hc
  case h_2 => exact ⟨_, rfl, .map (.map .check _) _⟩
  case h_3 => exact ⟨_, rfl, .map (p.readBasic_obedient _) _⟩
  case h_4 parser h => exact ⟨_, rfl, .map (p.readFull_obedient (hf parser h source) _) _⟩

-- A file is read as a whole or not at all, whatever the signal answers to each poll.
theorem parse_all_or_nothing {p : Pipeline} (hc : p.method ≠ .container)
    (hf : ∀ parser, p.method = .full parser → ∀ source, (parser source).Obedient)
    (path source : String) :
    ∃ (run : Poll Document) (doc : Document),
      p.parse path source = .ok run ∧ (run.run .never).1 = .completed doc ∧
      ∀ signal,
        ((run.run signal).1 = .cancelled ↔ ∃ k < (run.run signal).2, signal k = true) ∧
        ((run.run signal).1 ≠ .cancelled → (run.run signal).1 = .completed doc) ∧
        (∀ n, (∀ k < n, signal k = false) → signal n = true →
          ((run.run signal).1 = .cancelled ↔ n < (run.run .never).2)) := by
  have ⟨run, h, ho⟩ := parse_obedient hc hf path source
  have ⟨doc, hd⟩ := ho.run_never_completed
  refine ⟨run, doc, h, hd, fun signal => ⟨ho.run_cancelled_iff signal, ?_, ?_⟩⟩
  · intro hs
    rw [ho.run_eq_never hs, hd]
  · exact fun n hb hn => ho.run_first_stop hb hn

-- A language with a parser that polls once, stopped at its second poll.
theorem parse_all_or_nothing_full :
    let parser (_ : String) : Poll (List Entity) :=
      Poll.check >>= fun _ => pure [.ofHeader "Add" "function" 1]
    ∃ p, ofProfile .builtinC .builtin = .ok p ∧ (∀ source, (parser source).Obedient) ∧
      ∃ run doc,
        { p with method := .full parser }.parse "add.c" "// Function: Add\nint Add();" = .ok run ∧
        (run.run .never).1 = .completed doc ∧
        ((run.run (.after 1)).1 = .cancelled ↔ 1 < (run.run .never).2) := by
  have ho (_ : String) : (Poll.check >>= fun _ =>
      pure [Entity.ofHeader "Add" "function" 1]).Obedient := .map .check _
  refine ⟨_, rfl, ho, ?_⟩
  have ⟨run, doc, h, hd, hs⟩ := parse_all_or_nothing
    (p := ⟨.builtinC, .builtin, .full fun _ => Poll.check >>= fun _ =>
      pure [.ofHeader "Add" "function" 1], []⟩)
    nofun (fun _ hp => by cases hp; exact ho) "add.c" "// Function: Add\nint Add();"
  have hn := (hs (.after 1)).2.2 1 (by simp [Signal.after]) (by simp [Signal.after])
  exact ⟨run, doc, h, hd, hn⟩

end Pipeline
end SourceDocs

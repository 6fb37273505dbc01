import SourceDocs.Proofs.Signature.Text

namespace SourceDocs.Phrase

open Prototype Declaration

variable {profile : Profile} {buf : Buffer} {roles : Roles} {i k limit : Nat}
  {ws : List (PlainWord × Space)} {last : PlainWord} {role : Role} {p : Phrase} {g : Gap}

theorem plain_first (h : buf.Holds i p.tokens) : ∃ t, buf.tokens[i]? = some t ∧ t.IsPlain := by
  obtain ⟨t, ht, hp⟩ := p.first_plain
  exact ⟨t, h.first ht, hp⟩

theorem length_tokens_pos (p : Phrase) : 0 < p.tokens.length := by
  obtain ⟨t, ht, -⟩ := p.first_plain
  exact List.length_pos_of_mem (List.mem_of_mem_head? ht)

theorem not_isBlank_first (h : buf.Holds i p.tokens) : buf.isBlank i = false := by
  obtain ⟨t, ht, hp⟩ := plain_first h
  exact Buffer.isBlank_eq_false_of_plain ht hp

theorem not_isBlank_last (h : buf.Holds i p.tokens) :
    buf.isBlank (i + p.tokens.length - 1) = false := by
  obtain ⟨t, ht, hp⟩ := p.last_plain
  exact Buffer.isBlank_eq_false_of_plain (h.last ht) hp

theorem read_gap (hc : Skip.Uncommented profile buf) {halt : Nat → Bool}
    (h : buf.Holds i g.tokens) (hl : i + g.size ≤ limit)
    (hh : ∀ k, i ≤ k → k < i + g.size → halt k = false) :
    Word.read profile buf halt limit i = Word.read profile buf halt limit (i + g.size) := by
  by_cases hg : g.size = 0
  case pos => rw [hg, Nat.add_zero]
  case neg =>
    have ⟨hs, hb⟩ := Gap.isBlank_of_holds h hg
    rw [hs] at hl hh ⊢
    exact Word.read_other (by omega) (hh i (Nat.le_refl _) (by omega)) (Word.at?_blank hc hb)

theorem read_through (hb : buf.WellFormed) (hc : Skip.Uncommented profile buf) {halt : Nat → Bool}
    (h : buf.Holds i (p.tokens ++ g.tokens)) (hl : i + p.tokens.length + g.size ≤ limit)
    (hh : ∀ k, i ≤ k → k < i + p.tokens.length + g.size → halt k = false)
    (hs : Skip.nameEnd profile buf limit (i + p.tokens.length) = i + p.tokens.length) :
    Word.read profile buf halt limit i =
      (places i p.words p.last ++
          (Word.read profile buf halt limit (i + p.tokens.length + g.size)).1,
        (Word.read profile buf halt limit (i + p.tokens.length + g.size)).2) := by
  obtain ⟨hp, hg⟩ := Buffer.holds_append.mp h
  rw [read_words hb hc p.ne_const hp rfl (fun k hk hl => hh k hk (Nat.lt_add_right _ hl))
    ((Nat.le_add_right ..).trans hl) hs]
  simp only [← tokens.eq_1, read_gap hc hg hl fun k hk hl => hh k (by omega) hl]

-- What follows the blanks behind a name decides whether they end it.
theorem nameEnd_gap (hb : buf.WellFormed) (h : buf.Holds i g.tokens)
    (hgap : g.size = 0 → Skip.nameEnd profile buf limit i = i)
    (hblank : buf.isBlank (i + g.size) = false)
    (hsuffix : Skip.isTypeSuffix buf (i + g.size) = false) :
    Skip.nameEnd profile buf limit i = i := by
  by_cases hg : g.size = 0
  case pos => exact hgap hg
  case neg =>
    have ⟨hs, hi⟩ := Gap.isBlank_of_holds h hg
    rw [hs] at hblank hsuffix
    exact Skip.nameEnd_stops profile hb (.blank hi hblank hsuffix)

def assign (role : Role) (roles : Roles) (i : Nat) :
    List (PlainWord × Space) → PlainWord → Roles
  | [], last => roles.setRange i (i + last.size) (some role)
  | w :: ws, last =>
    assign role (roles.setRange i (i + w.1.size) (some .modifier)) (i + w.1.size + 1) ws last

def wordsMarked (ws : List (PlainWord × Space)) : List Marked :=
  ws.flatMap fun w => tagged (some .modifier) w.1.tokens ++ tagged none w.2.tokens

theorem wordsMarked_cons (w : PlainWord × Space) (ws : List (PlainWord × Space)) :
    wordsMarked (w :: ws) =
      tagged (some .modifier) w.1.tokens ++ (⟨.blank, w.2.chars⟩, none) :: wordsMarked ws := by
  simp [wordsMarked, tagged, w.2.tokens_eq]

def marked (p : Phrase) (role : Role) : List Marked :=
  wordsMarked p.words ++ tagged (some role) p.last.tokens

theorem fst_wordsMarked (ws : List (PlainWord × Space)) :
    (wordsMarked ws).map Prod.fst = wordTokens ws := by
  simp [wordsMarked, wordTokens, List.map_flatMap]

theorem fst_marked (p : Phrase) (role : Role) : (p.marked role).map Prod.fst = p.tokens := by
  simp [marked, tokens, fst_wordsMarked]

@[simp]
theorem length_marked (p : Phrase) (role : Role) : (p.marked role).length = p.tokens.length := by
  rw [← p.fst_marked role, List.length_map]

@[simp]
theorem size_assign (role : Role) (roles : Roles) (i : Nat) (ws : List (PlainWord × Space))
    (last : PlainWord) : (assign role roles i ws last).slots.size = roles.slots.size := by
  induction ws generalizing roles i
  case nil => simp [assign]
  case cons w ws hi => simp [assign, hi]

-- Roles are given to the words and to nothing else.
theorem get_assign (h : k < i ∨ i + (wordTokens ws ++ last.tokens).length ≤ k) :
    (assign role roles i ws last).get k = roles.get k := by
  induction ws generalizing roles i
  case nil =>
    simp only [wordTokens, List.flatMap_nil, List.nil_append] at h
    rw [assign, Roles.get_setRange, if_neg]
    simp only [PlainWord.size]
    omega
  case cons w ws hi =>
    simp only [wordTokens_cons, List.append_assoc, List.length_append, List.cons_append,
      List.length_cons] at h hi
    have hw : w.1.size = w.1.tokens.length := rfl
    rw [assign, hi (by omega), Roles.get_setRange, if_neg (by omega)]

-- The induction is on the words, with the roles that the words so far have left.
theorem shows_assign (hr : roles.slots.size = buf.size)
    (h : buf.Holds i (wordTokens ws ++ last.tokens))
    (hn : ∀ k, i ≤ k → k < i + (wordTokens ws ++ last.tokens).length → roles.get k = none) :
    Shows buf (assign role roles i ws last) i (wordsMarked ws ++ tagged (some role) last.tokens) := by
  induction ws generalizing i roles
  case nil =>
    have h : buf.Holds i last.tokens := h
    exact .of_setRange h hr
  case cons w ws hi =>
    rw [wordTokens_cons, List.append_assoc, List.cons_append, Buffer.holds_append] at h
    simp only [wordTokens_cons, List.append_assoc, List.length_append, List.cons_append,
      List.length_cons] at hn
    obtain ⟨hw, hblank, hrest⟩ := h
    change buf.tokens[i + w.1.size]? = _ at hblank
    change ∀ k, i ≤ k → k < i + (w.1.size + _) → _ at hn
    rw [assign]
    generalize hr₁ : roles.setRange i (i + w.1.size) _ = roles₁
    have hi := @hi roles₁ (i + w.1.size + 1) (by simp [← hr₁, hr]) hrest fun k hk hl => by
      simp only [List.length_append] at hl
      rw [← hr₁, Roles.get_setRange, if_neg (by omega), hn k (by omega) (by omega)]
    subst hr₁
    rw [wordsMarked_cons, List.append_assoc, List.cons_append]
    have hgap : roles.get (i + w.1.size) = none := hn _ (Nat.le_add_right ..) (by omega)
    exact .word hw hblank hr hgap (fun k hk => get_assign (.inl hk)) hi

theorem length_places (i : Nat) (ws : List (PlainWord × Space)) (last : PlainWord) :
    (places i ws last).length = ws.length + 1 := by
  induction ws generalizing i
  case nil => rfl
  case cons w ws hi => simp [places, hi]

theorem markPascalName_places (h : buf.Holds i (wordTokens ws ++ last.tokens)) :
    markPascalName profile buf roles (ws.length + 1) (places i ws last) =
      assign .name roles i ws last := by
  induction ws generalizing i roles
  case nil => exact markName_plain profile h
  case cons w ws hi =>
    rw [wordTokens_cons, List.append_assoc, List.cons_append, Buffer.holds_append] at h
    exact hi h.2.2

theorem markPascalType_places (hb : buf.WellFormed)
    (h : buf.Holds i (wordTokens ws ++ last.tokens)) :
    markPascalType profile buf roles (ws.length + 1) (places i ws last) =
      assign .type roles i ws last := by
  induction ws generalizing i roles
  case nil => exact markType_plain profile hb h
  case cons w ws hi =>
    rw [wordTokens_cons, List.append_assoc, List.cons_append, Buffer.holds_append] at h
    exact hi h.2.2

-- The words are read alone, and the last one is told from the others.
structure ReadAlone (profile : Profile) (buf : Buffer) (roles : Roles) (i stop : Nat)
    (ws : List (PlainWord × Space)) (last : PlainWord) : Prop where
  all : (Word.read profile buf (fun _ => false) stop i).1 = places i ws last
  words : (Word.read profile buf (isSeparator roles) stop i).1 = places i ws last

-- Also without a colon the last word is marked by itself, after all modifiers.
theorem markLast_eq_assign (mark : Roles → Word → Roles) (roles : Roles)
    (hmark : ∀ roles j, buf.Holds j last.tokens →
      mark roles ⟨j, j + last.size, false⟩ = roles.setRange j (j + last.size) (some role))
    (h : buf.Holds i (wordTokens ws ++ last.tokens)) :
    ∃ w, (places i ws last).getLast? = some w ∧
      mark ((places i ws last).dropLast.foldl
        (fun r v => r.setRange v.start v.stop (some .modifier)) roles) w =
        assign role roles i ws last := by
  induction ws generalizing i roles
  case nil => exact ⟨_, rfl, hmark roles i h⟩
  case cons w ws hi =>
    rw [wordTokens_cons, List.append_assoc, List.cons_append, Buffer.holds_append] at h
    have hne : places (i + w.1.size + 1) ws last ≠ [] := by
      rw [← List.length_pos_iff, length_places]
      exact Nat.succ_pos _
    obtain ⟨v, hv, hm⟩ := hi (roles.setRange i (i + w.1.size) (some .modifier)) h.2.2
    refine ⟨v, ?_, ?_⟩
    · rw [places, List.getLast?_cons_of_ne_nil hne]
      exact hv
    · rw [places, List.dropLast_cons_of_ne_nil hne]
      exact hm

variable {stop : Nat}

theorem modifiersAndLast_eq (hr : ReadAlone profile buf roles i stop ws last) :
    modifiersAndLast profile buf roles i stop =
      ((places i ws last).dropLast, (places i ws last).getLast?) := by
  simp only [modifiersAndLast, hr.all, hr.words, ↓reduceIte]

theorem markModifiersAndName_eq (hr : ReadAlone profile buf roles i stop ws last)
    (h : buf.Holds i (wordTokens ws ++ last.tokens)) :
    markModifiersAndName profile buf roles i stop = assign .name roles i ws last := by
  obtain ⟨w, hw, hm⟩ := markLast_eq_assign (markName profile buf) roles
    (fun _ _ hj => markName_plain profile hj) h
  simp only [markModifiersAndName, modifiersAndLast_eq hr, hw]
  exact hm

theorem markModifiersAndType_eq (hb : buf.WellFormed)
    (hr : ReadAlone profile buf roles i stop ws last)
    (h : buf.Holds i (wordTokens ws ++ last.tokens)) :
    markModifiersAndType profile buf roles i stop = assign .type roles i ws last := by
  obtain ⟨w, hw, hm⟩ := markLast_eq_assign (fun r v => markType profile buf r v.start v.stop) roles
    (fun _ _ hj => markType_plain profile hb hj) h
  rw [Prototype.markModifiersAndType_eq]
  simp only [modifiersAndLast_eq hr, hw]
  exact hm

def text (p : Phrase) : List Char :=
  PlainWord.joined (p.words.map Prod.fst ++ [p.last])

theorem role_of_mem_wordsMarked {m : Marked} (hm : m ∈ wordsMarked ws) :
    m.2 = none ∨ m.2 = some .modifier := by
  simp only [wordsMarked, List.mem_flatMap, List.mem_append] at hm
  obtain ⟨w, -, hm | hm⟩ := hm
  · exact .inr (role_of_mem_tagged hm)
  · exact .inl (role_of_mem_tagged hm)

theorem role_of_mem_marked {m : Marked} (hm : m ∈ p.marked role) :
    m.2 = none ∨ m.2 = some .modifier ∨ m.2 = some role := by
  rcases List.mem_append.mp hm with hm | hm
  · exact (role_of_mem_wordsMarked hm).imp_right .inl
  · exact .inr (.inr (role_of_mem_tagged hm))

section Collect

variable {out : List Char} {ms before after : List Marked} {p : Prototype} {q : Phrase}

-- Before anything is collected, no space is put.
theorem collectType_nil_space (d : Nat) (s : Bool) :
    collectType d [] s ms = collectType d [] false ms := by
  induction ms generalizing d s
  case nil => rfl
  case cons m ms hi =>
    obtain ⟨t, r⟩ := m
    simp only [collectType, appendSpaced, List.isEmpty_nil, Bool.not_true, Bool.and_false,
      Bool.false_eq_true, ↓reduceIte, hi _ s]

theorem collectType_skip (h : ∀ m ∈ before, IsForeign m) :
    collectType 0 [] false (before ++ ms) = collectType 0 [] false ms := by
  induction before
  case nil => rfl
  case cons m before hi =>
    have hm := h m (.head _)
    have ⟨ho, hc⟩ := hm.not_bracket
    have hi := hi fun n hn => h n (.tail _ hn)
    unfold IsForeign at hm
    simp [collectType, ho, hc, hm, hi, collectType_nil_space 0 true]

-- Behind a word that is collected already, each further one comes with a space.
theorem collectType_wordsMarked (ho : out ≠ []) :
    collectType 0 out true (wordsMarked ws ++ ms) =
      collectType 0 (out ++ ws.flatMap fun w => ' ' :: w.1.chars) true ms := by
  induction ws generalizing out
  case nil => simp [wordsMarked]
  case cons w ws hi =>
    rw [wordsMarked_cons, List.append_assoc, collectType_plain (.inr rfl), List.cons_append,
      collectType]
    simp [isOpening, isClosing, appendSpaced, ho, hi]

-- The blank behind the last modifier is still open.
theorem collectType_modifiers :
    collectType 0 [] false (wordsMarked ws ++ ms) =
      collectType 0 (PlainWord.joined (ws.map Prod.fst)) (!ws.isEmpty) ms := by
  cases ws
  case nil => simp [wordsMarked, PlainWord.joined]
  case cons w ws =>
    rw [wordsMarked_cons, List.append_assoc, collectType_plain (.inr rfl), List.cons_append,
      collectType]
    simp [isOpening, isClosing, appendSpaced, collectType_wordsMarked w.1.ne_nil,
      PlainWord.joined_cons, List.flatMap_map]

theorem appendSpaced_joined (ws : List PlainWord) (w : PlainWord) :
    appendSpaced (PlainWord.joined ws) (!ws.isEmpty) w.chars = PlainWord.joined (ws ++ [w]) := by
  cases ws
  case nil => simp [PlainWord.joined, appendSpaced]
  case cons v ws => simp [appendSpaced, PlainWord.joined_cons, v.ne_nil]

theorem typeText?_eq {words : List PlainWord} {i stop : Nat}
    (h : collectType 0 [] false (p.marked i stop) = PlainWord.joined words) :
    p.typeText? i stop = if words = [] then none else some (PlainWord.joined words) := by
  rw [typeText?, h, PlainWord.trim_joined]
  split
  case h_1 hn => rw [if_pos (PlainWord.joined_eq_nil.mp hn)]
  case h_2 hn => rw [if_neg fun he => hn (PlainWord.joined_eq_nil.mpr he)]

-- A phrase that ends with a type is a type.
theorem typeText?_marked {i stop : Nat} (hb : ∀ m ∈ before, IsForeign m)
    (ha : ∀ m ∈ after, IsForeign m)
    (h : p.marked i stop = before ++ (q.marked .type ++ after)) :
    p.typeText? i stop = some q.text := by
  have hc : collectType 0 [] false (p.marked i stop) = q.text := by
    have he : (!q.words.isEmpty) = !(q.words.map Prod.fst).isEmpty := by simp
    rw [h, collectType_skip hb, marked, List.append_assoc, collectType_modifiers,
      collectType_plain (.inl rfl), collectType_foreign ha, he, appendSpaced_joined, text]
  rw [typeText?_eq hc, if_neg (by simp), text]

-- A phrase that ends with a name leaves its modifiers as a type.
theorem typeText?_modifiers {i stop : Nat}
    (h : p.marked i stop = q.marked .name) :
    p.typeText? i stop =
      if q.words = [] then none else some (PlainWord.joined (q.words.map Prod.fst)) := by
  have hc : collectType 0 [] false (p.marked i stop) =
      PlainWord.joined (q.words.map Prod.fst) := by
    rw [h, marked, collectType_modifiers, collectType_foreign]
    intro m hm
    simp [IsForeign, role_of_mem_tagged hm, Role.isOfType]
  rw [typeText?_eq hc]
  simp

theorem roleText?_name {i stop : Nat} (ha : ∀ m ∈ after, m.2 ≠ some .name)
    (h : p.marked i stop = q.marked .name ++ after) :
    p.roleText? .name i stop = some q.last.chars := by
  have hc : collect (· = .name) [] false (p.marked i stop) = q.last.chars := by
    rw [h, marked, List.append_assoc, collect_only rfl]
    case hb =>
      intro m hm
      rcases role_of_mem_wordsMarked hm with hr | hr <;> simp [hr]
    case ha =>
      intro m hm
      have := ha m hm
      rcases hr : m.2 with _ | r
      · rfl
      · simpa [hr] using this
    exact Token.flatMap_chars_scan q.last.chars
  obtain ⟨c, cs, hcs⟩ := List.exists_cons_of_ne_nil q.last.ne_nil
  simp [roleText?, hc, hcs]

end Collect

end SourceDocs.Phrase

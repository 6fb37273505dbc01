import SourceDocs.Proofs.Signature.Phrase
import SourceDocs.Proofs.Signature.Pieces

namespace SourceDocs

namespace Prototype

variable {profile : Profile} {buf : Buffer} {i stop : Nat}

structure IsColon (buf : Buffer) (i : Nat) : Prop where
  colon : buf.isChar i ':' = true
  next : buf.isChar (i + 1) ':' = false
  sign : buf.isChar (i + 1) '=' = false

theorem IsColon.matchesAt (h : IsColon buf i) (hb : buf.WellFormed) :
    buf.matchesAt i "::" = false := by
  simp [Buffer.matchesAt_doubleColon hb, h.next]

theorem IsColon.isDefault (h : IsColon buf i) (hb : buf.WellFormed) : isDefault buf i = false := by
  have hc : buf.isChar i '=' = false :=
    Bool.eq_false_iff.mpr fun he => absurd (Buffer.eq_of_isChar h.colon he) (by decide)
  simp [Prototype.isDefault, Buffer.matchesAt_assign hb, hc, h.sign]

theorem isColon_of_token {t : Token} (hi : buf.tokens[i]? = some ⟨.symbol, [':']⟩)
    (ht : buf.tokens[i + 1]? = some t) (hp : t.IsPlain ∨ t.kind = .blank) : IsColon buf i where
  colon := Buffer.isChar_iff.mpr ⟨_, hi, rfl, rfl⟩
  next := Buffer.not_isChar_plain ht hp (by decide)
  sign := Buffer.not_isChar_plain ht hp (by decide)

-- A colon ends the name before it, also with blanks between them.
theorem IsColon.nameEnd {g : Gap} {limit : Nat} (h : IsColon buf (i + g.size)) (hb : buf.WellFormed)
    (hg : buf.Holds i g.tokens) : Skip.nameEnd profile buf limit i = i := by
  refine Phrase.nameEnd_gap hb hg (fun hs => ?no_gap) (Buffer.not_isBlank_of_isChar h.colon) ?stops
  case no_gap =>
    rw [hs] at h
    exact Skip.nameEnd_colon profile hb h.colon h.next
  case stops =>
    obtain ⟨t, ht, hk, hc⟩ := Buffer.isChar_iff.mp h.colon
    have hs : buf.symbol? (i + g.size) = some ':' := by
      have := h.colon
      simpa only [Buffer.isChar, decide_eq_true_eq] using this
    have htoken : buf.isToken (i + g.size) "const" = false := by
      obtain ⟨c, hc'⟩ := List.head?_eq_some_iff.mp hc
      simp [Buffer.isToken, Buffer.chars, ht, hc']
    simp [Skip.isTypeSuffix, Skip.isPointer, hs, htoken]

-- Between the signs a declaration is surveyed as its words are read. Both inductions follow
-- `Word.read`, which goes on behind a word and steps over all else, as the survey does; the
-- hypothesis keeps the other branches of the survey out until the words end.
section Read

variable (hb : buf.WellFormed) {halt : Nat → Bool} {words : List Word} {j : Nat}
  (hr : Word.read profile buf halt stop i = (words, j))
  (h : ∀ k, i ≤ k → k < j → isDefault buf k = false ∧ buf.isChar k ':' = false)

include hb hr h

theorem survey_read (s : Survey) :
    survey profile buf stop s i =
      survey profile buf stop { s with words := s.words + words.length } j := by
  fun_induction Word.read profile buf halt stop i generalizing s words
  case case1 =>
    obtain ⟨rfl, rfl⟩ := Prod.mk.inj hr
    rfl
  case case2 i hi _ w hw rest ih =>
    obtain ⟨rfl, rfl⟩ := Prod.mk.inj hr
    have hlt := Word.lt_stop_of_at? profile buf hi hw
    have hle : w.stop ≤ rest.2 := Word.le_read ..
    obtain ⟨hd, hcolon⟩ := h i (Nat.le_refl _) (by omega)
    rw [survey, if_pos hi, if_neg (by simp [hd]),
      if_neg (by simp [Buffer.matchesAt_doubleColon hb, hcolon]), if_neg (by simp [hcolon])]
    split
    case h_2 hn => cases hw.symm.trans hn
    case h_1 v hv =>
      obtain rfl := Option.some.inj (hw.symm.trans hv)
      rw [ih rfl fun k hk hl => h k (by omega) hl]
      simp only [List.length_cons, Nat.add_assoc, Nat.add_comm 1]
      rfl
  case case3 i hi _ hn ih =>
    have hle : i + 1 ≤ j := by
      have := Word.le_read profile buf halt stop (i + 1)
      rwa [hr] at this
    obtain ⟨hd, hcolon⟩ := h i (Nat.le_refl _) (by omega)
    rw [survey, if_pos hi, if_neg (by simp [hd]),
      if_neg (by simp [Buffer.matchesAt_doubleColon hb, hcolon]), if_neg (by simp [hcolon])]
    split
    case h_1 hw => cases hw.symm.trans hn
    case h_2 => exact ih hr (fun k hk hl => h k (by omega) hl) s
  case case4 =>
    obtain ⟨rfl, rfl⟩ := Prod.mk.inj hr
    rfl

theorem hasColon_read : hasColon profile buf stop i = hasColon profile buf stop j := by
  fun_induction Word.read profile buf halt stop i generalizing words
  case case1 => exact (Prod.mk.inj hr).2 ▸ rfl
  case case2 i hi _ w hw rest ih =>
    obtain ⟨rfl, rfl⟩ := Prod.mk.inj hr
    have hlt := Word.lt_stop_of_at? profile buf hi hw
    have hle : w.stop ≤ rest.2 := Word.le_read ..
    obtain ⟨hd, hcolon⟩ := h i (Nat.le_refl _) (by omega)
    rw [hasColon, if_pos hi, if_neg (by simp [hd]),
      if_neg (by simp [Buffer.matchesAt_doubleColon hb, hcolon]), if_neg (by simp [hcolon])]
    split
    case h_2 hn => cases hw.symm.trans hn
    case h_1 v hv =>
      obtain rfl := Option.some.inj (hw.symm.trans hv)
      exact ih rfl fun k hk hl => h k (by omega) hl
  case case3 i hi _ hn ih =>
    have hle : i + 1 ≤ j := by
      have := Word.le_read profile buf halt stop (i + 1)
      rwa [hr] at this
    obtain ⟨hd, hcolon⟩ := h i (Nat.le_refl _) (by omega)
    rw [hasColon, if_pos hi, if_neg (by simp [hd]),
      if_neg (by simp [Buffer.matchesAt_doubleColon hb, hcolon]), if_neg (by simp [hcolon])]
    split
    case h_1 hw => cases hw.symm.trans hn
    case h_2 => exact ih hr fun k hk hl => h k (by omega) hl
  case case4 => exact (Prod.mk.inj hr).2 ▸ rfl

end Read

theorem survey_colon (hb : buf.WellFormed) (h : IsColon buf i) (hi : i < stop) (s : Survey) :
    survey profile buf stop s i =
      survey profile buf stop ⟨s.roles.set i (some .nameTypeSeparator), s.words, s.words⟩
        (i + 1) := by
  rw [survey, if_pos hi, if_neg (by simp [h.isDefault hb]), if_neg (by simp [h.matchesAt hb]),
    if_pos h.colon]

theorem survey_end (s : Survey) : survey profile buf stop s stop = s := by
  rw [survey, if_neg (Nat.lt_irrefl _)]

theorem hasColon_colon (hb : buf.WellFormed) (h : IsColon buf i) (hi : i < stop) :
    hasColon profile buf stop i = true := by
  rw [hasColon, if_pos hi, if_neg (by simp [h.isDefault hb]), if_neg (by simp [h.matchesAt hb]),
    if_pos h.colon]

end Prototype

namespace Pascal

open Prototype Declaration Phrase

structure Parameter where
  before : Gap
  names : Phrase
  type? : Option (Gap × Gap × Phrase)
  after : Gap

def printType : Option (Gap × Gap × Phrase) → List Char
  | none => []
  | some (before, after, type) => before.chars ++ ':' :: (after.chars ++ type.print)

def typeMarked : Option (Gap × Gap × Phrase) → List Marked
  | none => []
  | some (before, after, type) =>
    tagged none before.tokens ++ (⟨.symbol, [':']⟩, some .nameTypeSeparator) ::
      (tagged none after.tokens ++ type.marked .type)

section Marks

variable {profile : Profile} {buf : Buffer} {roles : Roles} {i k stop : Nat} {p t : Phrase}
  {b a : Gap} (hb : buf.WellFormed) (hc : Skip.Uncommented profile buf)

include hb in
theorem no_sign (h : buf.Holds i p.tokens) (hk : i ≤ k) (hl : k < i + p.tokens.length) :
    isDefault buf k = false ∧ buf.isChar k ':' = false :=
  have ⟨_, ht, hi⟩ := h.token hk hl
  have hp := plain_or_blank ht
  ⟨isDefault_eq_false hb hi hp, Buffer.not_isChar_plain hi hp (by decide)⟩

include hb in
theorem no_sign_gap (h : buf.Holds i a.tokens) (hk : i ≤ k) (hl : k < i + a.size) :
    isDefault buf k = false ∧ buf.isChar k ':' = false := by
  have ⟨t, ht, hi⟩ := h.token hk hl
  have hp : t.IsPlain ∨ t.kind = .blank := .inr (Gap.kind_of_mem ht)
  exact ⟨isDefault_eq_false hb hi hp, Buffer.not_isChar_plain hi hp (by decide)⟩

include hb hc in
theorem read_names (h : buf.Holds i p.tokens) (halt : Nat → Bool)
    (hh : ∀ k, i ≤ k → k < i + p.tokens.length → halt k = false) :
    Word.read profile buf halt (i + p.tokens.length) i =
      (places i p.words p.last, i + p.tokens.length) := by
  have hs : Skip.nameEnd profile buf (i + p.tokens.length) (i + p.tokens.length) =
      i + p.tokens.length := Skip.nameEnd_stops profile hb (.limit rfl)
  have hlen : i + p.tokens.length = i + (Phrase.wordTokens p.words ++ p.last.tokens).length := rfl
  rw [Phrase.read_words hb hc p.ne_const h hlen hh (Nat.le_refl (i + p.tokens.length)) hs,
    Word.read_end (Nat.lt_irrefl _), List.append_nil]

include hb hc in
-- Without a colon nothing is surveyed but the words, all of which belong to the name.
theorem markPascal_names (h : buf.Holds i p.tokens)
    (hn : ∀ k, i ≤ k → k < i + p.tokens.length → roles.get k = none) :
    markPascal profile buf roles i (i + p.tokens.length) =
      assign .name roles i p.words p.last := by
  have hall := read_names hb hc h (fun _ => false) fun _ _ _ => rfl
  have hsurvey : survey profile buf (i + p.tokens.length) ⟨roles, 0, 0⟩ i =
      ⟨roles, p.words.length + 1, 0⟩ := by
    rw [survey_read hb hall fun k hk hl => no_sign hb h hk hl, survey_end, length_places,
      Nat.zero_add]
  have hwords := read_names hb hc h (isSeparator roles) fun k hk hl => by
    simp [isSeparator, hn k hk hl]
  unfold markPascal
  simp only [hsurvey, ↓reduceIte, hwords, Nat.sub_self, markPascalName_places h, markPascalType]

structure Stands (buf : Buffer) (i : Nat) (p : Phrase) (b a : Gap) (t : Phrase) : Prop where
  names : buf.Holds i p.tokens
  before : buf.Holds (i + p.tokens.length) b.tokens
  colon : buf.tokens[i + p.tokens.length + b.size]? = some ⟨.symbol, [':']⟩
  after : buf.Holds (i + p.tokens.length + b.size + 1) a.tokens
  type : buf.Holds (i + p.tokens.length + b.size + 1 + a.size) t.tokens

namespace Stands

theorem of_holds (h : buf.Holds i ((p.marked .name ++ typeMarked (some (b, a, t))).map (·.1))) :
    Stands buf i p b a t := by
  simp only [typeMarked, tagged, List.map_append, Phrase.fst_marked, List.map_map, List.map_cons,
    Function.comp_def, List.map_id', Buffer.holds_append] at h
  obtain ⟨hp, hb, hcolon, hrest⟩ := h
  obtain ⟨ha, ht⟩ := Buffer.holds_append.mp hrest
  exact ⟨hp, hb, hcolon, ha, ht⟩

variable (h : Stands buf i p b a t)

include h

-- Neither a type nor the blanks before it begin with a second colon or an equals sign.
theorem isColon : IsColon buf (i + p.tokens.length + b.size) := by
  by_cases hg : a.size = 0
  case pos =>
    have ht := h.type
    rw [hg, Nat.add_zero] at ht
    have ⟨u, hu, hp⟩ := plain_first ht
    exact isColon_of_token h.colon hu (.inl hp)
  case neg =>
    have ⟨u, hu, hk⟩ := Buffer.isBlank_iff.mp (Gap.isBlank_of_holds h.after hg).2
    exact isColon_of_token h.colon hu (.inr hk)

include hb

theorem no_sign_names (hk : i ≤ k) (hl : k < i + p.tokens.length + b.size) :
    isDefault buf k = false ∧ buf.isChar k ':' = false := by
  by_cases hlt : k < i + p.tokens.length
  case pos => exact no_sign hb h.names hk hlt
  case neg => exact no_sign_gap hb h.before (Nat.le_of_not_lt hlt) hl

theorem no_sign_type (hk : i + p.tokens.length + b.size + 1 ≤ k)
    (hl : k < i + p.tokens.length + b.size + 1 + a.size + t.tokens.length) :
    isDefault buf k = false ∧ buf.isChar k ':' = false := by
  by_cases hlt : k < i + p.tokens.length + b.size + 1 + a.size
  case pos => exact no_sign_gap hb h.after hk hlt
  case neg => exact no_sign hb h.type (Nat.le_of_not_lt hlt) hl

include hc

theorem read_names (halt : Nat → Bool)
    (hh : ∀ k, i ≤ k → k < i + p.tokens.length + b.size → halt k = false)
    (hcolon : halt (i + p.tokens.length + b.size) = true)
    (hl : i + p.tokens.length + b.size < stop) :
    Word.read profile buf halt stop i =
      (places i p.words p.last, i + p.tokens.length + b.size) := by
  rw [read_through hb hc (Buffer.holds_append.mpr ⟨h.names, h.before⟩) (Nat.le_of_lt hl) hh
    (h.isColon.nameEnd hb h.before), Word.read_halt hl hcolon, List.append_nil]

theorem read_type (halt : Nat → Bool)
    (hh : ∀ k, i + p.tokens.length + b.size + 1 ≤ k →
      k < i + p.tokens.length + b.size + 1 + a.size + t.tokens.length → halt k = false) :
    Word.read profile buf halt (i + p.tokens.length + b.size + 1 + a.size + t.tokens.length)
        (i + p.tokens.length + b.size + 1) =
      (places (i + p.tokens.length + b.size + 1 + a.size) t.words t.last,
        i + p.tokens.length + b.size + 1 + a.size + t.tokens.length) := by
  rw [read_gap hc h.after (Nat.le_add_right ..) fun k hk hl => hh k hk (Nat.lt_add_right _ hl)]
  exact Pascal.read_names hb hc h.type halt fun k hk hl => hh k (by omega) hl

theorem read_to_colon (hl : i + p.tokens.length + b.size < stop) :
    Word.read profile buf (buf.isChar · ':') stop i =
      (places i p.words p.last, i + p.tokens.length + b.size) :=
  h.read_names hb hc _ (fun _ hk hl => (h.no_sign_names hb hk hl).2) h.isColon.colon hl

theorem hasColon_eq (hl : i + p.tokens.length + b.size < stop) :
    hasColon profile buf stop i = true := by
  rw [hasColon_read hb (h.read_to_colon hb hc hl) fun k hk hl => h.no_sign_names hb hk hl,
    hasColon_colon hb h.isColon hl]

-- The survey goes over the names, the colon, and the type. Only the colon changes the roles, and
-- the words before it are counted apart.
theorem survey_eq (roles : Roles) :
    survey profile buf (i + p.tokens.length + b.size + 1 + a.size + t.tokens.length) ⟨roles, 0, 0⟩ i =
      ⟨roles.set (i + p.tokens.length + b.size) (some .nameTypeSeparator),
        p.words.length + 1 + (t.words.length + 1), p.words.length + 1⟩ := by
  have hnames := h.read_to_colon hb hc
    (show _ < i + p.tokens.length + b.size + 1 + a.size + t.tokens.length by omega)
  have htype := h.read_type hb hc (fun _ => false) fun _ _ _ => rfl
  rw [survey_read hb hnames fun k hk hl => h.no_sign_names hb hk hl,
    survey_colon hb h.isColon (by omega),
    survey_read hb htype fun k hk hl => h.no_sign_type hb hk hl, survey_end]
  simp only [length_places, Nat.zero_add]

omit hb hc in
-- Before the names and the type are marked, only the colon has a role.
theorem get_set_colon
    (hn : ∀ k, i ≤ k → k < i + p.tokens.length + b.size + 1 + a.size + t.tokens.length →
      roles.get k = none)
    (hr : roles.slots.size = buf.size) (hk : i ≤ k)
    (hl : k < i + p.tokens.length + b.size + 1 + a.size + t.tokens.length) :
    (roles.set (i + p.tokens.length + b.size) (some .nameTypeSeparator)).get k =
      if k = i + p.tokens.length + b.size then some .nameTypeSeparator else none := by
  have hlt := Buffer.lt_size_of_token h.colon
  rw [Roles.get_set, hn k hk hl, hr]
  refine if_congr (and_iff_left_of_imp ?_) rfl rfl
  rintro rfl
  exact hlt

-- The names are read up to the colon, which the survey has marked, and the type from behind it to
-- the end of the parameter.
theorem markPascal_eq
    (hn : ∀ k, i ≤ k → k < i + p.tokens.length + b.size + 1 + a.size + t.tokens.length →
      roles.get k = none)
    (hr : roles.slots.size = buf.size) :
    markPascal profile buf roles i
        (i + p.tokens.length + b.size + 1 + a.size + t.tokens.length) =
      assign .type (assign .name
        (roles.set (i + p.tokens.length + b.size) (some .nameTypeSeparator)) i p.words p.last)
        (i + p.tokens.length + b.size + 1 + a.size) t.words t.last := by
  have htpos := t.length_tokens_pos
  have hget {k : Nat} := h.get_set_colon hn hr (k := k)
  generalize hroles : roles.set (i + p.tokens.length + b.size) (some .nameTypeSeparator) = roles₁
    at hget
  have hnames := h.read_names hb hc (isSeparator roles₁)
    (fun k hk hl => by simp [isSeparator, hget hk (by omega), Nat.ne_of_lt hl])
    (by simp [isSeparator, hget (show i ≤ i + p.tokens.length + b.size by omega) (by omega)])
    (show _ < i + p.tokens.length + b.size + 1 + a.size + t.tokens.length by omega)
  -- Behind the name the roles are those of the survey.
  generalize hroles₂ : assign .name roles₁ i p.words p.last = roles₂
  have hget₂ (k : Nat) (hk : i + p.tokens.length ≤ k) : roles₂.get k = roles₁.get k := by
    rw [← hroles₂]
    exact get_assign (.inr hk)
  -- The search for the type stops behind the colon, the only place with this role.
  have hseek : Buffer.seek (roles₂.get · ≠ some .nameTypeSeparator) (i + p.tokens.length + b.size)
      (i + p.tokens.length + b.size + 1 + a.size + t.tokens.length) =
        i + p.tokens.length + b.size + 1 := by
    rw [Buffer.seek_miss (by omega), Buffer.seek_hit (by omega)]
    · simp [hget₂ (i + p.tokens.length + b.size + 1) (by omega),
        hget (k := i + p.tokens.length + b.size + 1) (by omega) (by omega)]
    · simp [hget₂ (i + p.tokens.length + b.size) (by omega),
        hget (k := i + p.tokens.length + b.size) (by omega) (by omega)]
  have htype := h.read_type hb hc (roles₂.get · = some .defaultSeparator) fun k hk hl => by
    simp [hget₂ k (by omega), hget (by omega) hl, show k ≠ i + p.tokens.length + b.size by omega]
  unfold markPascal
  simp only [h.survey_eq hb hc, hroles, Nat.add_one_ne_zero, ↓reduceIte, hnames,
    markPascalName_places h.names, hroles₂, hseek, htype, Nat.add_sub_cancel_left,
    markPascalType_places hb h.type]

theorem shows_markPascal
    (hn : ∀ k, i ≤ k → k < i + p.tokens.length + b.size + 1 + a.size + t.tokens.length →
      roles.get k = none)
    (hr : roles.slots.size = buf.size) :
    Shows buf (markPascal profile buf roles i
      (i + p.tokens.length + b.size + 1 + a.size + t.tokens.length)) i
      (p.marked .name ++ typeMarked (some (b, a, t))) := by
  rw [h.markPascal_eq hb hc hn hr]
  -- The colon, the names and the type are marked one after the other, each in a place of its own.
  have hget {k : Nat} := h.get_set_colon hn hr (k := k)
  generalize hroles₁ : roles.set (i + p.tokens.length + b.size) (some .nameTypeSeparator) = roles₁
    at hget ⊢
  have hr₁ : roles₁.slots.size = buf.size := by simp [← hroles₁, hr]
  have hnames : Shows buf (assign .name roles₁ i p.words p.last) i (p.marked .name) := by
    refine shows_assign hr₁ h.names fun k hk hl => ?_
    change k < i + p.tokens.length at hl
    rw [hget hk (by omega), if_neg (by omega)]
  generalize hroles₂ : assign .name roles₁ i p.words p.last = roles₂ at hnames ⊢
  have hget₂ (k : Nat) (hk : i + p.tokens.length ≤ k) : roles₂.get k = roles₁.get k := by
    rw [← hroles₂]
    exact get_assign (.inr hk)
  have htype : Shows buf (assign .type roles₂ (i + p.tokens.length + b.size + 1 + a.size) t.words
      t.last) (i + p.tokens.length + b.size + 1 + a.size) (t.marked .type) := by
    refine shows_assign (by simp [← hroles₂, hr₁]) h.type fun k hk hl => ?_
    change k < i + p.tokens.length + b.size + 1 + a.size + t.tokens.length at hl
    rw [hget₂ k (by omega), hget (by omega) hl, if_neg (by omega)]
  generalize hroles₃ : assign .type roles₂ (i + p.tokens.length + b.size + 1 + a.size) t.words
    t.last = roles₃ at htype ⊢
  have hget₃ (k : Nat) (hk : k < i + p.tokens.length + b.size + 1 + a.size) :
      roles₃.get k = roles₂.get k := by
    rw [← hroles₃]
    exact get_assign (.inl hk)
  refine Shows.append.mpr ⟨hnames.congr fun k hk hl => ?names, ?type⟩
  case names =>
    rw [Phrase.length_marked] at hl
    exact hget₃ k (by omega)
  case type =>
    rw [Phrase.length_marked, typeMarked, Shows.append, length_tagged]
    refine ⟨.of_holds h.before fun k hk hl => ?beforeColon, h.colon, ?colon,
      Shows.append.mpr ⟨?afterColon, ?words⟩⟩
    case beforeColon =>
      change k < i + p.tokens.length + b.size at hl
      rw [hget₃ k (by omega), hget₂ k hk, hget (by omega) (by omega), if_neg (by omega)]
    case colon =>
      change roles₃.get (i + p.tokens.length + b.size) = _
      rw [hget₃ _ (by omega), hget₂ _ (by omega), hget (by omega) (by omega), if_pos rfl]
    case afterColon =>
      refine .of_holds h.after fun k hk hl => ?_
      change i + p.tokens.length + b.size + 1 ≤ k at hk
      change k < i + p.tokens.length + b.size + 1 + a.size at hl
      rw [hget₃ k hl, hget₂ k (by omega), hget (by omega) (by omega), if_neg (by omega)]
    case words =>
      rw [length_tagged]
      exact htype

end Stands

end Marks

namespace Parameter

variable (q : Parameter)

def print : List Char :=
  q.before.chars ++ (q.names.print ++ (printType q.type? ++ q.after.chars))

def core : List Marked :=
  q.names.marked .name ++ typeMarked q.type?

theorem inert_of_mem_core {m : Marked} (hm : m ∈ q.core) : m.1.IsInert := by
  have hphrase {p : Phrase} {role : Role} (hm : m ∈ p.marked role) : m.1.IsInert := by
    have ht : m.1 ∈ p.tokens := p.fst_marked role ▸ List.mem_map_of_mem hm
    exact (plain_or_blank ht).elim Token.IsPlain.inert Token.inert_of_blank
  have hgap {g : Gap} (hm : m ∈ tagged none g.tokens) : m.1.IsInert := by
    obtain ⟨t, ht, rfl⟩ := List.mem_map.mp hm
    exact Gap.inert ht
  rcases List.mem_append.mp hm with hm | hm
  case inl => exact hphrase hm
  case inr =>
    rcases hq : q.type? with _ | ⟨before, after, type⟩
    case none => simp [hq, typeMarked] at hm
    case some =>
      simp only [hq, typeMarked, List.mem_append, List.mem_cons] at hm
      rcases hm with hm | rfl | hm | hm
      · exact hgap hm
      · rintro - c ⟨rfl⟩
        decide
      · exact hgap hm
      · exact hphrase hm

def piece : Piece where
  before := q.before
  core := q.core
  after := q.after
  inert _ hm := q.inert_of_mem_core hm
  first := by
    obtain ⟨t, ht, hp⟩ := q.names.first_plain
    exact ⟨t, by simp [core, Phrase.fst_marked, Option.mem_def.mp ht], hp.not_blank⟩
  last := by
    unfold core
    rcases q.type? with _ | ⟨before, after, type⟩
    case none =>
      obtain ⟨t, ht, hp⟩ := q.names.last_plain
      exact ⟨t, by simpa [typeMarked, Phrase.fst_marked] using ht, hp.not_blank⟩
    case some =>
      obtain ⟨t, ht, hp⟩ := type.last_plain
      refine ⟨t, ?_, hp.not_blank⟩
      simp [typeMarked, Phrase.fst_marked, List.getLast?_append, List.getLast?_cons,
        Option.mem_def.mp ht]

theorem piece_showsIn {profile : Profile} {buf : Buffer} (hb : buf.WellFormed)
    (hc : Skip.Uncommented profile buf) : q.piece.ShowsIn profile buf .pascal := by
  intro roles i hr h _ hn
  generalize hstart : (q.piece.span i).1 = start at h hn
  have hstop : (q.piece.span i).2 = start + q.core.length := by
    rw [← hstart]
    rfl
  rw [hstop] at hn ⊢
  change buf.Holds start (q.core.map (·.1)) at h
  change Shows buf (markPascal profile buf roles start (start + q.core.length)) start q.core
  unfold core at h hn ⊢
  generalize q.type? = type? at h hn ⊢
  rcases type? with _ | ⟨before, after, type⟩
  case none =>
    simp only [typeMarked, List.append_nil, Phrase.length_marked, Phrase.fst_marked] at h hn ⊢
    rw [markPascal_names hb hc h hn]
    exact shows_assign hr h hn
  case some =>
    have hlen : start + (q.names.marked .name ++
        typeMarked (some (before, after, type))).length =
        start + q.names.tokens.length + before.size + 1 + after.size + type.tokens.length := by
      simp only [typeMarked, List.length_append, List.length_cons, length_tagged,
        Phrase.length_marked, Gap.size]
      omega
    rw [hlen] at hn ⊢
    exact (Stands.of_holds h).shows_markPascal hb hc hn hr

end Parameter

end Pascal
end SourceDocs

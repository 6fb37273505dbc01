import SourceDocs.Proofs.Signature.Words
import SourceDocs.Prototype.Basic

namespace SourceDocs

namespace Prototype

variable (profile : Profile) {buf : Buffer} {roles : Roles} {i q : Nat} {ts : List Token}

theorem qualifiedEnd_plain (h : buf.Holds i ts) (hp : ∀ t ∈ ts, t.IsPlain) :
    qualifiedEnd buf (i + ts.length) i = i + ts.length := by
  induction ts generalizing i
  case nil => simp [qualifiedEnd]
  case cons t ts hi =>
    have ht := Buffer.isIdentifier_of_plain h.1 (hp t (.head _))
    have hi := hi h.2 fun u hu => hp u (.tail _ hu)
    rw [show i + 1 + ts.length = i + (t :: ts).length by simp; omega] at hi
    rw [qualifiedEnd, if_pos (by simp), if_pos (by simp [ht]), hi]

theorem typeEnds_plain (hb : buf.WellFormed) (h : buf.Holds i ts) (hp : ∀ t ∈ ts, t.IsPlain) :
    typeEnds buf (i + ts.length) q i = (q, i + ts.length) := by
  induction ts generalizing i
  case nil => simp [typeEnds]
  case cons t ts hi =>
    have ht := hp t (.head _)
    have hchar (c : Char) (hc : c ≠ '_') : buf.isChar i c = false :=
      Bool.eq_false_iff.mpr fun h' => hc (Buffer.eq_of_isChar_plain h.1 ht h')
    have hi := hi h.2 fun u hu => hp u (.tail _ hu)
    rw [show i + 1 + ts.length = i + (t :: ts).length by simp; omega] at hi
    rw [typeEnds, if_pos (by simp), if_neg (by simp [hchar '.']),
      if_neg (by simp [Buffer.matchesAt_doubleColon hb, hchar ':']),
      if_pos (Buffer.isIdentifier_of_plain h.1 ht), hi]

section Plain

variable {w : PlainWord}

theorem seek_plain (h : buf.Holds i w.tokens) :
    Buffer.seek (isIdentifier buf) i (i + w.size) = i := by
  have hpos := w.size_pos
  have ⟨t, ht, hi⟩ := h.token (Nat.le_refl i) (Nat.lt_add_of_pos_right hpos)
  rw [Buffer.seek, if_pos (by omega), if_pos (Buffer.isIdentifier_of_plain hi (w.isPlain ht))]

theorem markName_plain (h : buf.Holds i w.tokens) :
    markName profile buf roles ⟨i, i + w.size, false⟩ =
      roles.setRange i (i + w.size) (some .name) := by
  have hq := qualifiedEnd_plain h fun t ht => w.isPlain ht
  change qualifiedEnd buf (i + w.size) i = i + w.size at hq
  unfold markName
  dsimp only
  rw [seek_plain h, hq, Roles.setRange_self, markNameSuffix, if_neg (Nat.lt_irrefl _)]

theorem markType_plain (hb : buf.WellFormed) (h : buf.Holds i w.tokens) :
    markType profile buf roles i (i + w.size) =
      roles.setRange i (i + w.size) (some .type) := by
  have ht := typeEnds_plain (q := i) hb h fun t ht => w.isPlain ht
  change typeEnds buf (i + w.size) i i = (i, i + w.size) at ht
  rw [markType, seek_plain h, ht, Roles.setRange_self, Roles.setRange_self,
    markTypeSuffix_end profile (Nat.lt_irrefl _)]

end Plain

variable {w : Ident}

theorem markName_ident (h : buf.Holds i w.tokens) :
    markName profile buf roles ⟨i, i + w.size, false⟩ =
      roles.setRange i (i + w.size) (some .name) :=
  markName_plain profile (w := w.toPlain) h

theorem markType_ident (hb : buf.WellFormed) (h : buf.Holds i w.tokens) :
    markType profile buf roles i (i + w.size) =
      roles.setRange i (i + w.size) (some .type) :=
  markType_plain profile (w := w.toPlain) hb h

theorem markDeclaredType_ident (hb : buf.WellFormed) (h : buf.Holds i w.tokens) :
    markDeclaredType profile buf roles ⟨i, i + w.size, false⟩ =
      roles.setRange i (i + w.size) (some .type) := by
  -- A plain word ends with no pointer symbol, nor with blanks.
  have hptr : pointerStart buf i (i + w.size) = i + w.size := by
    have hpos := w.size_pos
    obtain ⟨n, hn⟩ : ∃ n, i + w.size = n + 1 := ⟨i + w.size - 1, by omega⟩
    have ⟨t, ht, htn⟩ := h.token (show i ≤ n by omega) (show n < i + w.size by omega)
    have hblank := Buffer.isBlank_eq_false_of_plain htn (w.isPlain ht)
    have hpointer : Skip.isPointer buf n = false := by
      unfold Skip.isPointer
      split
      case h_1 c hs =>
        obtain rfl := Buffer.eq_of_isChar_plain htn (w.isPlain ht) (c := c)
          (by simp [Buffer.isChar, hs])
        rfl
      case h_2 => rfl
    have hr : Buffer.retreat buf.isBlank (i + 1) (n + 1) = n + 1 := by
      simp [Buffer.retreat, hblank]
    rw [hn, pointerStart]
    simp [hr, hpointer]
  unfold markDeclaredType
  dsimp only
  simp [markType_ident profile hb h, hptr]

end Prototype

-- These tokens stand from `i` on and have these roles.
def Shows (buf : Buffer) (roles : Roles) (i : Nat) : List Prototype.Marked → Prop
  | [] => True
  | m :: ms => buf.tokens[i]? = some m.1 ∧ roles.get i = m.2 ∧ Shows buf roles (i + 1) ms

namespace Shows

open Prototype

variable {buf : Buffer} {roles roles' : Roles} {i : Nat} {ms ns : List Marked}

theorem append : Shows buf roles i (ms ++ ns) ↔
    Shows buf roles i ms ∧ Shows buf roles (i + ms.length) ns := by
  induction ms generalizing i
  case nil => simp [Shows]
  case cons m ms hi =>
    simp [Shows, hi, and_assoc, show i + 1 + ms.length = i + (ms.length + 1) by omega]

theorem congr (h : Shows buf roles i ms)
    (hr : ∀ k, i ≤ k → k < i + ms.length → roles'.get k = roles.get k) :
    Shows buf roles' i ms := by
  induction ms generalizing i
  case nil => trivial
  case cons m ms hi =>
    obtain ⟨ht, hm, h⟩ := h
    simp only [List.length_cons] at hr
    exact ⟨ht, (hr i (by omega) (by omega)).trans hm, hi h fun k _ _ => hr k (by omega) (by omega)⟩

theorem of_holds {ts : List Token} {r : Option Role} (h : buf.Holds i ts)
    (hr : ∀ k, i ≤ k → k < i + ts.length → roles.get k = r) :
    Shows buf roles i (ts.map (·, r)) := by
  induction ts generalizing i
  case nil => trivial
  case cons t ts hi =>
    simp only [List.length_cons] at hr
    exact ⟨h.1, hr i (by omega) (by omega), hi h.2 fun k _ _ => hr k (by omega) (by omega)⟩

theorem of_setRange {ts : List Token} {r : Option Role} (h : buf.Holds i ts)
    (hr : roles.slots.size = buf.size) :
    Shows buf (roles.setRange i (i + ts.length) r) i (ts.map (·, r)) := by
  refine .of_holds h fun k hk hl => ?_
  have ⟨t, _, ht⟩ := h.token hk hl
  rw [Roles.get_setRange, if_pos ⟨hk, hl, hr ▸ Buffer.lt_size_of_token ht⟩]

-- A word and the blank behind it lie before all that is marked later.
theorem word {ts : List Token} {blank : Token} {r : Option Role} (h : buf.Holds i ts)
    (hb : buf.tokens[i + ts.length]? = some blank) (hr : roles.slots.size = buf.size)
    (hn : roles.get (i + ts.length) = none)
    (hlater : ∀ k, k < i + ts.length + 1 →
      roles'.get k = (roles.setRange i (i + ts.length) r).get k)
    (rest : Shows buf roles' (i + ts.length + 1) ms) :
    Shows buf roles' i (ts.map (·, r) ++ (blank, none) :: ms) := by
  rw [append, List.length_map]
  refine ⟨(of_setRange h hr).congr fun k _ hl => hlater k ?before, hb, ?blank, rest⟩
  case before =>
    rw [List.length_map] at hl
    omega
  case blank => rw [hlater _ (Nat.lt_succ_self _), Roles.get_setRange, if_neg (by omega), hn]

theorem get {k : Nat} (h : Shows buf roles i ms) (hk : k < ms.length) :
    buf.tokens[i + k]? = some ms[k].1 ∧ roles.get (i + k) = ms[k].2 := by
  induction ms generalizing i k
  case nil => simp at hk
  case cons m ms hi =>
    obtain ⟨ht, hm, h⟩ := h
    cases k
    case zero => exact ⟨ht, hm⟩
    case succ k =>
      have := hi h (show k < ms.length by simpa using hk)
      simpa [show i + 1 + k = i + (k + 1) by omega] using this

theorem exists_mem {k : Nat} (h : Shows buf roles i ms) (hk : i ≤ k) (hl : k < i + ms.length) :
    ∃ m ∈ ms, roles.get k = m.2 := by
  obtain ⟨n, rfl⟩ := Nat.exists_eq_add_of_le hk
  have hn : n < ms.length := Nat.lt_of_add_lt_add_left hl
  exact ⟨ms[n], List.getElem_mem hn, (h.get hn).2⟩

theorem holds (h : Shows buf roles i ms) : buf.Holds i (ms.map (·.1)) := by
  induction ms generalizing i
  case nil => trivial
  case cons m ms hi => exact ⟨h.1, hi h.2.2⟩

theorem marked_eq {p : Prototype} (h : Shows p.buffer p.roles i ms) :
    p.marked i (i + ms.length) = ms := by
  refine List.ext_getElem? fun k => ?_
  by_cases hk : k < ms.length
  case pos =>
    have ⟨ht, hr⟩ := h.get hk
    simp [marked, List.getElem?_zipIdx, hk, ht, hr]
  case neg =>
    have hlen : (p.marked i (i + ms.length)).length ≤ k := by
      simp only [marked, List.length_map, List.length_zipIdx, Array.length_toList,
        Array.size_extract]
      omega
    rw [List.getElem?_eq_none hlen, List.getElem?_eq_none (by omega)]

end Shows

namespace Gap

variable {buf : Buffer} {i limit start : Nat} {g : Gap}

theorem isBlank_of_holds (h : buf.Holds i g.tokens) (hg : g.size ≠ 0) :
    g.size = 1 ∧ buf.isBlank i = true := by
  unfold size tokens at *
  split
  case isTrue he => simp [he] at hg
  case isFalse he =>
    rw [if_neg he] at h
    exact ⟨rfl, Buffer.isBlank_iff.mpr ⟨_, h.1, rfl⟩⟩

theorem afterBlanks_eq (h : buf.Holds i g.tokens) (hl : i + g.size ≤ limit)
    (hn : i + g.size = limit ∨ buf.isBlank (i + g.size) = false) :
    buf.afterBlanks i limit = i + g.size := by
  have hend : buf.afterBlanks (i + g.size) limit = i + g.size := by
    rw [Buffer.afterBlanks, Buffer.seek]
    rcases hn with hn | hn
    · rw [if_neg (by omega)]
    · simp [hn]
  by_cases hg : g.size = 0
  case pos => simpa [hg] using hend
  case neg =>
    obtain ⟨hs, hb⟩ := isBlank_of_holds h hg
    rw [hs] at hl hend ⊢
    rw [Buffer.afterBlanks, Buffer.seek, if_pos (by omega), if_neg (by simp [hb])]
    exact hend

theorem beforeBlanks_eq (h : buf.Holds i g.tokens) (hi : start < i)
    (hn : buf.isBlank (i - 1) = false) : buf.beforeBlanks start (i + g.size) = i := by
  have hend : buf.beforeBlanks start i = i := by
    obtain ⟨n, rfl⟩ : ∃ n, i = n + 1 := ⟨i - 1, by omega⟩
    rw [Buffer.beforeBlanks, Buffer.retreat, if_neg]
    simpa using fun _ => hn
  by_cases hg : g.size = 0
  case pos => simpa [hg] using hend
  case neg =>
    obtain ⟨hs, hb⟩ := isBlank_of_holds h hg
    rw [hs, Buffer.beforeBlanks, Buffer.retreat, if_pos ⟨by omega, hb⟩]
    exact hend

end Gap

namespace Declaration

open Prototype

def tagged (role : Option Role) (ts : List Token) : List Marked :=
  ts.map (·, role)

def wordsMarked : List (Ident × Space) → List Marked
  | [] => []
  | w :: ws =>
    tagged (some (if ws.isEmpty then .type else .modifier)) w.1.tokens ++
      (⟨.blank, w.2.chars⟩, none) :: wordsMarked ws

def defaultMarked : Option (Gap × Gap × Ident) → List Marked
  | none => []
  | some (before, after, value) =>
    tagged none before.tokens ++ (⟨.symbol, ['=']⟩, some .defaultSeparator) ::
      (tagged none after.tokens ++ tagged (some .defaultValue) value.tokens)

def marked (d : Declaration) : List Marked :=
  wordsMarked d.words ++ (tagged (some .name) d.name.tokens ++ defaultMarked d.default?)

@[simp]
theorem fst_tagged (role : Option Role) (ts : List Token) : (tagged role ts).map Prod.fst = ts := by
  simp [tagged, Function.comp_def]

@[simp]
theorem length_tagged (role : Option Role) (ts : List Token) :
    (tagged role ts).length = ts.length :=
  List.length_map _

theorem fst_wordsMarked (ws : List (Ident × Space)) :
    (wordsMarked ws).map Prod.fst = wordTokens ws := by
  induction ws
  case nil => rfl
  case cons w ws hi => simp [wordsMarked, wordTokens_cons, hi]

@[simp]
theorem length_wordsMarked (ws : List (Ident × Space)) :
    (wordsMarked ws).length = (wordTokens ws).length := by
  rw [← fst_wordsMarked, List.length_map]

theorem fst_marked (d : Declaration) : d.marked.map Prod.fst = d.tokens := by
  rcases d with ⟨ws, name, _ | ⟨before, after, value⟩⟩ <;>
    simp [marked, tokens, defaultMarked, defaultTokens, fst_wordsMarked]

theorem length_marked (d : Declaration) : d.marked.length = d.tokens.length := by
  rw [← d.fst_marked, List.length_map]

variable (profile : Profile) {buf : Buffer} {roles : Roles} {i stop : Nat}
  {ws : List (Ident × Space)} {name : Ident}

theorem bounds_of_mem_places {w : Word} (hw : w ∈ places i ws name) :
    i ≤ w.start ∧ w.start < w.stop ∧ w.stop ≤ i + (wordTokens ws ++ name.tokens).length := by
  induction ws generalizing i
  case nil =>
    have := name.size_pos
    simp only [places, List.mem_singleton] at hw
    subst hw
    simp [wordTokens, Ident.size] at *
    omega
  case cons v ws hi =>
    have := v.1.size_pos
    simp only [wordTokens_cons, List.append_assoc, List.length_append, List.cons_append,
      List.length_cons] at hi ⊢
    simp only [places, List.mem_cons] at hw
    rcases hw with rfl | hw
    case inl =>
      simp only [Ident.size] at *
      omega
    case inr =>
      have := hi hw
      simp only [Ident.size] at *
      omega

theorem sameOutside_places (hb : buf.WellFormed) {bound : Nat}
    (h : Within buf (i + (wordTokens ws ++ name.tokens).length) bound) :
    Roles.SameOutside profile buf i bound roles (markWords profile buf roles (places i ws name)) :=
  sameOutside_markWords profile hb h fun _ => bounds_of_mem_places

theorem markWords_places_cons (hb : buf.WellFormed) {w : Ident × Space}
    (h : buf.Holds i w.1.tokens) :
    markWords profile buf roles (places i (w :: ws) name) =
      markWords profile buf
        (roles.setRange i (i + w.1.size) (some (if ws.isEmpty then .type else .modifier)))
        (places (i + w.1.size + 1) ws name) := by
  cases ws
  case nil => simp [places, markWords, markDeclaredType_ident profile hb h]
  case cons v ws => cases ws <;> simp [places, markWords, markModifier]

theorem markWords_shows (hb : buf.WellFormed) (hr : roles.slots.size = buf.size)
    (h : buf.Holds i (wordTokens ws ++ name.tokens))
    (hn : ∀ k, i ≤ k → k < i + (wordTokens ws ++ name.tokens).length → roles.get k = none) :
    Shows buf (markWords profile buf roles (places i ws name)) i
      (wordsMarked ws ++ tagged (some .name) name.tokens) := by
  induction ws generalizing i roles
  case nil =>
    have h : buf.Holds i name.tokens := h
    simp only [places, markWords, wordsMarked, List.nil_append]
    rw [markName_ident profile h]
    exact .of_setRange h hr
  case cons w ws hi =>
    rw [wordTokens_cons, List.append_assoc, List.cons_append, Buffer.holds_append] at h
    simp only [wordTokens_cons, List.append_assoc, List.length_append, List.cons_append,
      List.length_cons] at hn
    obtain ⟨hw, hblank, hrest⟩ := h
    change buf.tokens[i + w.1.size]? = _ at hblank
    change ∀ k, i ≤ k → k < i + (w.1.size + _) → _ at hn
    rw [markWords_places_cons profile hb hw]
    generalize hr₁ : roles.setRange i (i + w.1.size) _ = roles₁
    have hsize : roles₁.slots.size = buf.size := by simp [← hr₁, hr]
    have hi := @hi roles₁ (i + w.1.size + 1) hsize hrest fun k hk hl => by
      simp only [List.length_append] at hl
      rw [← hr₁, Roles.get_setRange, if_neg (by omega), hn k (by omega) (by omega)]
    -- The marks of the other words stay behind this one and its blank.
    have hframe (k : Nat) (hk : k < i + w.1.size + 1) :
        (markWords profile buf roles₁ (places (i + w.1.size + 1) ws name)).get k =
          roles₁.get k :=
      (sameOutside_places profile hb (.inl (Nat.lt_succ_self _))).get_eq k (.inl hk)
    generalize markWords profile buf roles₁ _ = roles₂ at hi hframe ⊢
    subst hr₁
    rw [wordsMarked, List.append_assoc, List.cons_append]
    have hgap : roles.get (i + w.1.size) = none := hn _ (Nat.le_add_right ..) (by omega)
    exact .word hw hblank hr hgap hframe hi

theorem isDefault_eq_false {k : Nat} {t : Token} (hb : buf.WellFormed)
    (ht : buf.tokens[k]? = some t) (hp : t.IsPlain ∨ t.kind = .blank) :
    isDefault buf k = false := by
  have hchar {c : Char} := Buffer.not_isChar_plain ht hp (c := c)
  simp [isDefault, Buffer.matchesAt_assign hb, hchar (c := '='), hchar (c := ':')]

theorem isDefault_sign {k : Nat} (h : buf.tokens[k]? = some ⟨.symbol, ['=']⟩) :
    isDefault buf k = true := by
  have : buf.isChar k '=' = true := Buffer.isChar_iff.mpr ⟨_, h, rfl, rfl⟩
  simp [isDefault, this]

theorem read_sign (hb : buf.WellFormed) (hc : Skip.Uncommented profile buf) {before : Gap}
    (h : buf.Holds i before.tokens)
    (hs : buf.tokens[i + before.size]? = some ⟨.symbol, ['=']⟩) (hl : i + before.size < stop) :
    Word.read profile buf (isDefault buf) stop i = ([], i + before.size) := by
  have hend : Word.read profile buf (isDefault buf) stop (i + before.size) = _ :=
    Word.read_halt hl (isDefault_sign hs)
  by_cases hg : before.size = 0
  case pos => simpa [hg] using hend
  case neg =>
    have ⟨hsize, hblank⟩ := Gap.isBlank_of_holds h hg
    have ⟨t, ht, hk⟩ := Buffer.isBlank_iff.mp hblank
    rw [hsize] at hend hl ⊢
    rw [Word.read_other (by omega) (isDefault_eq_false hb ht (.inr hk)) (Word.at?_blank hc hblank),
      hend]

theorem markDefault_shows {after : Gap} {value : Ident} (hr : roles.slots.size = buf.size)
    (h : buf.Holds i (⟨.symbol, ['=']⟩ :: (after.tokens ++ value.tokens)))
    (hstop : stop = i + 1 + after.size + value.size)
    (hn : ∀ k, i ≤ k → k < stop → roles.get k = none) :
    Shows buf (markDefault buf roles i stop) i
      ((⟨.symbol, ['=']⟩, some .defaultSeparator) ::
        (tagged none after.tokens ++ tagged (some .defaultValue) value.tokens)) := by
  have hpos := value.size_pos
  obtain ⟨hsign, hrest⟩ := h
  obtain ⟨hafter, hvalue⟩ := Buffer.holds_append.mp hrest
  change buf.Holds (i + 1 + after.size) value.tokens at hvalue
  have hlast : buf.isBlank (stop - 1) = false := by
    obtain ⟨t, ht, hk⟩ := hvalue.token (k := stop - 1) (by omega) (by rw [← Ident.size]; omega)
    exact Buffer.isBlank_eq_false_of_plain hk (value.isPlain ht)
  have hfirst : buf.isBlank (i + 1 + after.size) = false := by
    obtain ⟨t, ht, hk⟩ := hvalue.token (Nat.le_refl _) (Nat.lt_add_of_pos_right hpos)
    exact Buffer.isBlank_eq_false_of_plain hk (value.isPlain ht)
  have hstart : buf.afterBlanks (i + 1) stop = i + 1 + after.size :=
    Gap.afterBlanks_eq hafter (by omega) (.inr hfirst)
  have hend : buf.beforeBlanks (i + 1 + after.size) stop = stop :=
    Gap.beforeBlanks_eq (g := .spaces 0) trivial (by omega) hlast
  have hchar : buf.isChar i '=' = true := Buffer.isChar_iff.mpr ⟨_, hsign, rfl, rfl⟩
  have hlt {k : Nat} (hk : i ≤ k) (hl : k < stop) : k < roles.slots.size := by
    rw [hr]
    by_cases he : k = i
    case pos => exact he ▸ Buffer.lt_size_of_token hsign
    case neg =>
      obtain ⟨t, _, ht⟩ := hrest.token (k := k) (by omega)
        (by simp only [List.length_append]; rw [← Gap.size, ← Ident.size]; omega)
      exact Buffer.lt_size_of_token ht
  have heq : markDefault buf roles i stop =
      (roles.setRange i (i + 1) (some .defaultSeparator)).setRange (i + 1 + after.size) stop
        (some .defaultValue) := by
    simp [markDefault, hchar, hstart, hend, show i + 1 + after.size < stop by omega]
  rw [heq]
  refine ⟨hsign, ?sign, Shows.append.mpr ⟨.of_holds hafter fun k hk hl => ?blanks, ?value⟩⟩
  case sign =>
    rw [Roles.get_setRange, if_neg (by omega), Roles.get_setRange,
      if_pos ⟨Nat.le_refl _, Nat.lt_succ_self _, hlt (Nat.le_refl _) (by omega)⟩]
  case blanks =>
    rw [← Gap.size] at hl
    rw [Roles.get_setRange, if_neg (by omega), Roles.get_setRange, if_neg (by omega),
      hn k (by omega) (by omega)]
  case value =>
    rw [length_tagged, ← Gap.size]
    refine .of_holds hvalue fun k hk hl => ?_
    rw [← Ident.size] at hl
    have := hlt (k := k) (by omega) (by omega)
    rw [Roles.get_setRange, if_pos ⟨hk, by omega, by simpa using this⟩]

theorem stops_default {before after : Gap} {value : Ident}
    (h : buf.Holds i (defaultTokens (some (before, after, value)))) : Skip.Stops buf stop i := by
  have ⟨hbefore, hsign⟩ := Buffer.holds_append.mp h
  have hchar : buf.isChar (i + before.size) '=' = true :=
    Buffer.isChar_iff.mpr ⟨_, hsign.1, rfl, rfl⟩
  by_cases hg : before.size = 0
  case pos => exact .sign (by simpa [hg] using hchar)
  case neg =>
    have ⟨hsize, hblank⟩ := Gap.isBlank_of_holds hbefore hg
    rw [hsize] at hchar
    refine .blank hblank (Buffer.not_isBlank_of_isChar hchar) ?_
    have hchars : buf.chars (i + 1) = ['='] := by
      have := hsign.1
      rw [← Gap.size, hsize] at this
      simp [Buffer.chars, this]
    simp only [Buffer.isChar, decide_eq_true_eq] at hchar
    simp [Skip.isTypeSuffix, Skip.isPointer, hchar, Buffer.isToken, hchars]

theorem not_isChar_colon {before after : Gap} {value : Ident}
    (h : buf.Holds i (defaultTokens (some (before, after, value)))) :
    buf.isChar i ':' = false := by
  rw [Bool.eq_false_iff]
  intro hc
  have hstops : Skip.Stops buf (i + 1) i := stops_default h
  cases hstops
  case limit hl => omega
  case sign hs => exact absurd (Buffer.eq_of_isChar hc hs) (by decide)
  case blank hblank _ _ => simp [Buffer.not_isBlank_of_isChar hc] at hblank

theorem markC_shows (hb : buf.WellFormed) (hc : Skip.Uncommented profile buf) {d : Declaration}
    (hr : roles.slots.size = buf.size) (he : IsEnd buf stop) (h : buf.Holds i d.tokens)
    (hstop : stop = i + d.tokens.length) (hn : ∀ k, i ≤ k → k < stop → roles.get k = none) :
    Shows buf (markC profile buf roles i stop) i d.marked := by
  obtain ⟨ws, name, default?⟩ := d
  simp only [tokens, marked] at h hstop ⊢
  rw [← List.append_assoc, Buffer.holds_append] at h
  rw [← List.append_assoc, List.length_append] at hstop
  rw [← List.append_assoc]
  generalize hm : (wordTokens ws ++ name.tokens).length = m at h hstop
  have hhalt (k : Nat) (hk : i ≤ k) (hl : k < i + m) : isDefault buf k = false := by
    obtain ⟨t, ht, hk⟩ := h.1.token hk (hm ▸ hl)
    rw [← wordTokens_plainWords] at ht
    exact isDefault_eq_false hb hk (Phrase.plain_or_blank (p := phrase ⟨ws, name, none⟩) ht)
  unfold markC
  rcases default? with _ | ⟨before, after, value⟩
  case none =>
    obtain rfl : stop = i + m := hstop
    have hread := read_words hb hc h.1 (by rw [hm]) hhalt (Nat.le_refl (i + m)) (.limit rfl)
    rw [Word.read_end (Nat.lt_irrefl _), List.append_nil] at hread
    simp only [defaultMarked, List.append_nil, hread, Nat.lt_irrefl, ↓reduceIte]
    exact markWords_shows profile hb hr h.1 (hm ▸ hn)
  case some =>
    obtain ⟨hbefore, hsign⟩ := Buffer.holds_append.mp h.2
    change buf.Holds (i + m + before.size) _ at hsign
    replace hstop : stop = i + m + before.size + 1 + after.size + value.size := by
      simp only [hstop, defaultTokens, List.length_append, List.length_cons, Gap.size, Ident.size]
      omega
    have hread := read_words hb hc h.1 (by rw [hm]) hhalt (show i + m ≤ stop by omega)
      (stops_default h.2)
    rw [read_sign profile hb hc hbefore hsign.1 (by omega), List.append_nil] at hread
    have hmark := markDefault_shows hr hsign hstop fun k hk hlt => hn k (by omega) (by omega)
    obtain ⟨hsize, hfront, _⟩ : Roles.SameOutside profile buf _ _ roles (markDefault buf roles _ stop) :=
      sameOutside_markDefault profile hb he (by omega) (isDefault_sign hsign.1)
    simp only [hread, show i + m + before.size < stop by omega, ↓reduceIte]
    generalize markDefault buf roles _ stop = roles₁ at hmark hsize hfront ⊢
    have hwords := markWords_shows profile hb (hsize.trans hr) h.1 fun k hk hl => by
      rw [hfront k (.inl (by omega)), hn k hk (by omega)]
    -- The marks of the words end where the name ends, before the blanks and the sign.
    have hback : Roles.SameOutside profile buf i (i + m) roles₁
        (markWords profile buf roles₁ (places i ws name)) :=
      sameOutside_places profile hb (.inr ⟨by rw [hm], not_isChar_colon h.2⟩)
    generalize markWords profile buf roles₁ _ = roles₂ at hwords hback ⊢
    have hlen : (wordsMarked ws ++ tagged (some .name) name.tokens).length = m := by
      simp [← hm]
    refine Shows.append.mpr ⟨hwords, ?_⟩
    rw [hlen, defaultMarked, Shows.append, length_tagged]
    refine ⟨.of_holds hbefore fun k hk hl => ?blanks, hmark.congr fun k hk _ => ?default⟩
    case blanks =>
      rw [← Gap.size] at hl
      rw [hback.get_eq k (.inr hk), hfront k (.inl (by omega)), hn k (by omega) (by omega)]
    case default => exact hback.get_eq k (.inr (by omega))

end Declaration
end SourceDocs

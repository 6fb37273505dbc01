import SourceDocs.Proofs.LineBreak.Mark
import SourceDocs.Proofs.LineBreak.Title
import SourceDocs.Proofs.LineBreak.Types
import SourceDocs.Prototype.Basic

namespace SourceDocs

open Buffer

def LineBreak.prototype (b : LineBreak) (p : Prototype) : Prototype :=
  { p with buffer := ofChars (b.rewrite p.buffer.text) }

namespace Prototype

variable {b : LineBreak} {profile : Profile} {cs : List Char}

theorem text_ofChars (cs : List Char) : (ofChars cs).text = cs :=
  Token.flatMap_chars_scan cs

theorem buffer_ofText (profile : Profile) (cs : List Char) :
    (ofText profile cs).buffer = ofChars cs := by
  unfold ofText
  dsimp only
  split <;> rfl

theorem ofText_rewrite (hb : b = .crlf ∨ b = .cr) (hp : profile.SymbolsOneLine) (hr : '\r' ∉ cs) :
    ofText profile (b.rewrite cs) = b.prototype (ofText profile cs) := by
  have h := LineBreak.alike_rewrite hb hr
  rw [LineBreak.prototype, buffer_ofText, text_ofChars]
  unfold ofText
  simp only [delimit?_congr hp h]
  cases delimit? profile (ofChars cs)
  case none => simp only [styleOf_congr hp h, mark_congr hp h, emptyRoles_congr h, h.size]
  case some d => exact ofDelimited_congr hp h d

def rewriteMarked (b : LineBreak) (ms : List Marked) : List Marked :=
  ms.map fun m => (b.token m.1, m.2)

theorem appendSpaced_rewrite (out : List Char) (space : Bool) (cs : List Char) :
    appendSpaced (b.rewrite out) space (b.rewrite cs) = b.rewrite (appendSpaced out space cs) := by
  unfold appendSpaced
  rw [b.isEmpty_rewrite]
  split
  · rw [b.rewrite_append, b.rewrite_cons (by decide)]
  · rw [b.rewrite_append]

theorem rewriteMarked_nil : rewriteMarked b [] = [] :=
  rfl

theorem rewriteMarked_cons (t : Token) (role : Option Role) (ms : List Marked) :
    rewriteMarked b ((t, role) :: ms) = (⟨t.kind, b.rewrite t.chars⟩, role) :: rewriteMarked b ms :=
  rfl

-- The texts are put together from the tokens one by one, with a space between them where there was
-- something else.
theorem collect_rewrite (keep : Role → Bool) (out : List Char) (space : Bool) (ms : List Marked) :
    collect keep (b.rewrite out) space (rewriteMarked b ms) =
      b.rewrite (collect keep out space ms) := by
  fun_induction collect keep out space ms
  case case1 => rfl
  all_goals simp_all [rewriteMarked_cons, collect, b.isEmpty_rewrite, appendSpaced_rewrite]

theorem collectType_rewrite (depth : Nat) (out : List Char) (space : Bool) (ms : List Marked) :
    collectType depth (b.rewrite out) space (rewriteMarked b ms) =
      b.rewrite (collectType depth out space ms) := by
  induction ms generalizing depth out space
  case nil => rfl
  case cons m ms hi =>
    rw [← Prod.eta m, rewriteMarked_cons, collectType, collectType]
    simp only [appendSpaced_rewrite, hi]
    grind

theorem runsGo_rewrite (role : Role) (current : List Char) (ms : List Marked) :
    runs.go role (b.rewrite current) (rewriteMarked b ms) =
      (runs.go role current ms).map b.rewrite := by
  fun_induction runs.go role current ms
  all_goals
    simp_all [rewriteMarked_nil, rewriteMarked_cons, runs.go, b.isEmpty_rewrite, b.rewrite_append,
      b.rewrite_nil]

theorem typesGo_rewrite (current : List Char) (ms : List Marked) :
    types.go (b.rewrite current) (rewriteMarked b ms) = (types.go current ms).map b.rewrite := by
  -- Whether a name goes on depends on the role of the next token.
  have hhead (ms : List Marked) :
      (rewriteMarked b ms).head?.bind (·.2) = ms.head?.bind (·.2) := by cases ms <;> rfl
  fun_induction types.go current ms
  case case5 m rest hq ht hi =>
    obtain ⟨t, role⟩ := m
    rw [b.rewrite_nil] at hi
    rw [rewriteMarked_cons, types.go, hi, List.map_cons]
    · intro u hu
      exact hq t (by simp_all)
    · intro u hu
      exact ht t (by simp_all)
  all_goals
    simp_all [rewriteMarked_nil, rewriteMarked_cons, types.go, b.rewrite_append, b.rewrite_nil]

-- One prototype is the other with this line break for every line feed, of which it has no other
-- line break.
structure Rewritten (b : LineBreak) (p p' : Prototype) : Prop where
  tokens : p'.buffer.tokens = p.buffer.tokens.map b.token
  roles : p'.roles = p.roles
  parameters : p'.parameters = p.parameters
  list : p'.list = p.list

theorem rewritten_ofText (hb : b = .crlf ∨ b = .cr) (hr : '\r' ∉ cs) :
    Rewritten b (ofText profile cs) (b.prototype (ofText profile cs)) where
  tokens := by
    rw [LineBreak.prototype, buffer_ofText, text_ofChars, LineBreak.tokens_rewrite hb hr]
  roles := rfl
  parameters := rfl
  list := rfl

namespace Rewritten

variable {p p' : Prototype} (h : Rewritten b p p')

include h

theorem size : p'.buffer.size = p.buffer.size := by
  simp [Buffer.size, h.tokens]

theorem headStop : p'.headStop = p.headStop := by
  rw [Prototype.headStop, h.list, h.size, Prototype.headStop]

theorem marked (start stop : Nat) :
    p'.marked start stop = rewriteMarked b (p.marked start stop) := by
  rw [Prototype.marked, h.tokens, h.roles, ← Array.map_extract, Array.toList_map, List.zipIdx_map,
    List.map_map, rewriteMarked, Prototype.marked, List.map_map]
  rfl

theorem roleText? (role : Role) (start stop : Nat) :
    p'.roleText? role start stop = (p.roleText? role start stop).map b.rewrite := by
  have hc := collect_rewrite (b := b) (· = role) [] false (p.marked start stop)
  rw [b.rewrite_nil, ← h.marked] at hc
  unfold Prototype.roleText?
  rw [hc]
  cases collect (· = role) [] false (p.marked start stop)
  case nil => rfl
  case cons c cs =>
    split
    case h_1 hn => cases b.rewrite_eq_nil.mp hn
    case h_2 => rfl

theorem typeText? (start stop : Nat) :
    p'.typeText? start stop = (p.typeText? start stop).map b.rewrite := by
  have hc := collectType_rewrite (b := b) 0 [] false (p.marked start stop)
  rw [b.rewrite_nil, ← h.marked] at hc
  unfold Prototype.typeText?
  rw [hc, b.trim_rewrite]
  cases Text.trim (collectType 0 [] false (p.marked start stop))
  case nil => rfl
  case cons c cs =>
    split
    case h_1 hn => cases b.rewrite_eq_nil.mp hn
    case h_2 => rfl

theorem name? : p'.name? = p.name?.map b.rewrite := by
  rw [Prototype.name?, h.headStop, h.roleText?, Prototype.name?]

theorem returnType? : p'.returnType? = p.returnType?.map b.rewrite := by
  unfold Prototype.returnType?
  simp only [h.list, h.size, h.headStop, h.typeText?]
  cases p.list <;> simp [Option.map_or]

theorem parameterName? (k : Nat) : p'.parameterName? k = (p.parameterName? k).map b.rewrite := by
  unfold Prototype.parameterName?
  rw [h.parameters]
  cases p.parameters[k]? <;> simp [h.roleText?]

theorem parameterType? (k : Nat) : p'.parameterType? k = (p.parameterType? k).map b.rewrite := by
  unfold Prototype.parameterType?
  rw [h.parameters, h.roles]
  cases p.parameters[k]? <;> simp [h.typeText?]

theorem parameterDefault? (k : Nat) :
    p'.parameterDefault? k = (p.parameterDefault? k).map b.rewrite := by
  unfold Prototype.parameterDefault?
  rw [h.parameters]
  cases p.parameters[k]? <;> simp [h.roleText?]

theorem tokens_eq : p'.tokens = rewriteMarked b p.tokens := by
  rw [Prototype.tokens, h.marked, h.size, Prototype.tokens]

theorem runs (role : Role) : p'.runs role = (p.runs role).map b.rewrite := by
  rw [Prototype.runs, h.tokens_eq, ← b.rewrite_nil, runsGo_rewrite, Prototype.runs]

theorem types : p'.types = p.types.map b.rewrite := by
  rw [Prototype.types, h.tokens_eq, ← b.rewrite_nil, typesGo_rewrite, Prototype.types]

end Rewritten

theorem exists_of_mem_tokens {p : Prototype} {m : Marked} (hm : m ∈ p.tokens) :
    ∃ k, p.buffer.tokens[k]? = some m.1 ∧ p.roles.get k = m.2 := by
  simp only [tokens, marked, List.mem_map, Prod.exists, List.mem_zipIdx_iff_getElem?] at hm
  obtain ⟨t, k, ht, rfl⟩ := hm
  refine ⟨k, ?_, by rw [Nat.zero_add]⟩
  simpa [Buffer.size] using ht

theorem unbroken_of_mem_typesGo {current : List Char} {ms : List Marked} (hc : Unbroken current)
    (hm : ∀ m ∈ ms, m.2.any Role.isTypeName = true → Unbroken m.1.chars) :
    ∀ t ∈ types.go current ms, Unbroken t := by
  fun_induction types.go current ms
  case case1 => simpa using hc
  case case2 hi =>
    exact hi (hc.append (hm _ (.head _) rfl)) fun m h => hm m (.tail _ h)
  case case3 hi =>
    exact hi (hc.append (hm _ (.head _) rfl)) fun m h => hm m (.tail _ h)
  case case4 hi =>
    exact List.forall_mem_cons.mpr
      ⟨hc.append (hm _ (.head _) rfl), hi unbroken_nil fun m h => hm m (.tail _ h)⟩
  case case5 hi => exact List.forall_mem_cons.mpr ⟨hc, hi unbroken_nil fun m h => hm m (.tail _ h)⟩

theorem unbroken_of_mem_types {p : Prototype} (hb : p.buffer.WellFormed)
    (h : p.roles.TypesUnbroken p.buffer) {t : List Char} (ht : t ∈ p.types) : Unbroken t := by
  refine unbroken_of_mem_typesGo unbroken_nil (fun m hm hr => ?_) t ht
  obtain ⟨k, hk, hrole⟩ := exists_of_mem_tokens hm
  refine Token.unbroken_of_wellFormed (hb.token hk) fun hbreak => ?_
  have hkind : p.buffer.isLineBreak k = true := by
    simp [Buffer.isLineBreak, Buffer.kind?, hk, hbreak]
  rw [← hrole, h k hkind] at hr
  cases hr

-- Types are linked by their names, and so these must be equal as they are.
theorem Rewritten.types_eq {p p' : Prototype} (h : Rewritten b p p') (hb : p.buffer.WellFormed)
    (ht : p.roles.TypesUnbroken p.buffer) : p'.types = p.types := by
  rw [h.types]
  conv_rhs => rw [← List.map_id p.types]
  exact List.map_congr_left fun t hm => b.rewrite_unbroken (unbroken_of_mem_types hb ht hm)

-- Only a text without carriage returns is got back from its line breaks.
theorem return_notMem_collect {keep : Role → Bool} {out : List Char} {space : Bool}
    {ms : List Marked} (ho : '\r' ∉ out) (hm : ∀ m ∈ ms, '\r' ∉ m.1.chars) :
    '\r' ∉ collect keep out space ms := by
  fun_induction collect keep out space ms
  case case1 => exact ho
  all_goals
    rw [List.forall_mem_cons] at hm
    grind [appendSpaced]

theorem return_notMem_collectType {depth : Nat} {out : List Char} {space : Bool}
    {ms : List Marked} (ho : '\r' ∉ out) (hm : ∀ m ∈ ms, '\r' ∉ m.1.chars) :
    '\r' ∉ collectType depth out space ms := by
  fun_induction collectType depth out space ms
  case case1 => exact ho
  all_goals
    rw [List.forall_mem_cons] at hm
    grind [appendSpaced]

theorem return_notMem_runsGo {role : Role} {current : List Char} {ms : List Marked}
    (hc : '\r' ∉ current) (hm : ∀ m ∈ ms, '\r' ∉ m.1.chars) :
    ∀ t ∈ runs.go role current ms, '\r' ∉ t := by
  fun_induction runs.go role current ms
  case case1 => simp
  case case2 => simpa using hc
  all_goals
    rw [List.forall_mem_cons] at hm
    grind

section Returns

variable {p : Prototype} (hr : ∀ t ∈ p.buffer.tokens, '\r' ∉ t.chars)

include hr

theorem return_notMem_marked (start stop : Nat) : ∀ m ∈ p.marked start stop, '\r' ∉ m.1.chars := by
  intro m hm
  simp only [marked, List.mem_map, Prod.exists] at hm
  obtain ⟨t, k, ht, rfl⟩ := hm
  have ht := List.fst_mem_of_mem_zipIdx ht
  rw [Array.mem_toList_iff, Array.mem_extract_iff_getElem] at ht
  obtain ⟨_, _, rfl⟩ := ht
  exact hr _ (Array.getElem_mem _)

theorem return_notMem_roleText? {role : Role} {start stop : Nat} {t : List Char}
    (ht : p.roleText? role start stop = some t) : '\r' ∉ t := by
  unfold roleText? at ht
  split at ht
  case h_1 => cases ht
  case h_2 =>
    cases ht
    exact return_notMem_collect List.not_mem_nil (return_notMem_marked hr start stop)

theorem return_notMem_typeText? {start stop : Nat} {t : List Char}
    (ht : p.typeText? start stop = some t) : '\r' ∉ t := by
  unfold typeText? at ht
  split at ht
  case h_1 => cases ht
  case h_2 =>
    cases ht
    exact fun hm => return_notMem_collectType List.not_mem_nil (return_notMem_marked hr start stop)
      ((Text.trim_isInfix _).subset hm)

theorem return_notMem_returnType? {t : List Char} (ht : p.returnType? = some t) : '\r' ∉ t := by
  simp only [returnType?, Option.or_eq_some_iff, Option.bind_eq_some_iff] at ht
  rcases ht with ⟨_, _, ht⟩ | ⟨_, ht⟩ <;> exact return_notMem_typeText? hr ht

theorem return_notMem_parameterName? {k : Nat} {t : List Char} (ht : p.parameterName? k = some t) :
    '\r' ∉ t := by
  simp only [parameterName?, bind, Option.bind_eq_some_iff] at ht
  obtain ⟨_, _, ht⟩ := ht
  exact return_notMem_roleText? hr ht

theorem return_notMem_parameterType? {k : Nat} {t : List Char} (ht : p.parameterType? k = some t) :
    '\r' ∉ t := by
  simp only [parameterType?, bind, Option.bind_eq_some_iff] at ht
  obtain ⟨_, _, ht⟩ := ht
  exact return_notMem_typeText? hr ht

theorem return_notMem_parameterDefault? {k : Nat} {t : List Char}
    (ht : p.parameterDefault? k = some t) : '\r' ∉ t := by
  simp only [parameterDefault?, bind, Option.bind_eq_some_iff] at ht
  obtain ⟨_, _, ht⟩ := ht
  exact return_notMem_roleText? hr ht

end Returns

-- What is read from the one prototype is read from the other, with a line feed for every line
-- break.
structure EqualByFeeds (p p' : Prototype) : Prop where
  style : p'.style = p.style
  parameters : p'.parameters = p.parameters
  list : p'.list = p.list
  text : feeds p'.buffer.text = p.buffer.text
  tokens : p'.tokens.map (fun m => (⟨m.1.kind, feeds m.1.chars⟩, m.2)) = p.tokens
  name? : p'.name?.map feeds = p.name?
  returnType? : p'.returnType?.map feeds = p.returnType?
  parameterName? : ∀ k, (p'.parameterName? k).map feeds = p.parameterName? k
  parameterType? : ∀ k, (p'.parameterType? k).map feeds = p.parameterType? k
  parameterDefault? : ∀ k, (p'.parameterDefault? k).map feeds = p.parameterDefault? k
  runs : ∀ role, (p'.runs role).map feeds = p.runs role
  linkableTypes : ∀ profile, p'.linkableTypes profile = p.linkableTypes profile

theorem map_feeds_rewrite (hb : b = .crlf ∨ b = .cr) {x : Option (List Char)}
    (h : ∀ t, x = some t → '\r' ∉ t) : (x.map b.rewrite).map feeds = x := by
  cases x
  case none => rfl
  case some t => rw [Option.map_some, Option.map_some, feeds_rewrite hb (h t rfl)]

theorem Rewritten.equalByFeeds {p p' : Prototype} (h : Rewritten b p p')
    (hb : b = .crlf ∨ b = .cr) (hw : p.buffer.WellFormed)
    (hr : ∀ t ∈ p.buffer.tokens, '\r' ∉ t.chars) (ht : p.roles.TypesUnbroken p.buffer)
    (hstyle : p'.style = p.style) : EqualByFeeds p p' where
  style := hstyle
  parameters := h.parameters
  list := h.list
  text := by
    have hmem : '\r' ∉ p.buffer.text := by
      simp only [Buffer.text, List.mem_flatMap, not_exists, not_and]
      exact fun t ht => hr t (Array.mem_toList_iff.mp ht)
    rw [Buffer.text, h.tokens, Array.toList_map, LineBreak.flatMap_chars_map_token]
    exact feeds_rewrite hb hmem
  tokens := by
    rw [h.tokens_eq, rewriteMarked, List.map_map]
    conv_rhs => rw [← List.map_id p.tokens]
    refine List.map_congr_left fun m hm => ?_
    have hm := return_notMem_marked hr 0 p.buffer.size m hm
    simp [LineBreak.token, feeds_rewrite hb hm]
  name? := by
    rw [h.name?]
    exact map_feeds_rewrite hb fun _ => return_notMem_roleText? hr
  returnType? := by
    rw [h.returnType?]
    exact map_feeds_rewrite hb fun _ => return_notMem_returnType? hr
  parameterName? k := by
    rw [h.parameterName?]
    exact map_feeds_rewrite hb fun _ => return_notMem_parameterName? hr
  parameterType? k := by
    rw [h.parameterType?]
    exact map_feeds_rewrite hb fun _ => return_notMem_parameterType? hr
  parameterDefault? k := by
    rw [h.parameterDefault?]
    exact map_feeds_rewrite hb fun _ => return_notMem_parameterDefault? hr
  runs role := by
    rw [h.runs, List.map_map]
    conv_rhs => rw [← List.map_id (p.runs role)]
    refine List.map_congr_left fun t hm => ?_
    exact feeds_rewrite hb
      (return_notMem_runsGo List.not_mem_nil (return_notMem_marked hr 0 p.buffer.size) t hm)
  linkableTypes profile := by
    rw [Prototype.linkableTypes, h.types_eq hw ht, Prototype.linkableTypes]

theorem equalByFeeds_ofText (profile : Profile) (hb : b = .crlf ∨ b = .cr) (hr : '\r' ∉ cs) :
    EqualByFeeds (ofText profile cs) (b.prototype (ofText profile cs)) := by
  have h : Rewritten b (ofText profile cs) (b.prototype (ofText profile cs)) :=
    rewritten_ofText hb hr
  have hbuf := buffer_ofText profile cs
  refine h.equalByFeeds hb (hbuf ▸ wellFormed_ofChars cs) ?_ (typesUnbroken_ofText profile cs) rfl
  rw [hbuf]
  exact fun t ht hm => hr (Token.mem_chars_of_mem_scan (by simpa [ofChars, ofTokens] using ht) hm)

end Prototype
end SourceDocs

import SourceDocs.Proofs.LineBreak.Entity
import SourceDocs.Proofs.ScopeRules

namespace SourceDocs

open Buffer Prototype

namespace LineBreak

variable (b : LineBreak)

-- The same document with this line break for every line feed in its prototypes.
def document (doc : Document) : Document :=
  { doc with entities := doc.entities.map b.entity }

def found (f : Pipeline.Found) : Pipeline.Found :=
  (f.1, f.2.1.map b.entity, f.2.2)

theorem ofString_string (source : String) :
    Buffer.ofString (b.string source) = ofChars (b.rewrite source.toList) := by
  rw [Buffer.ofString, string, String.toList_ofList]

variable {b} {es : List Entity}

theorem entity_of_isHeader {e : Entity} (h : e.IsHeader) : b.entity e = e := by
  obtain ⟨_, hprototype, hparsed⟩ := h
  cases e
  cases hprototype
  cases hparsed
  rfl

theorem map_entity_of_isHeader (h : ∀ e ∈ es, e.IsHeader) : es.map b.entity = es := by
  conv_rhs => rw [← List.map_id es]
  exact List.map_congr_left fun e he => entity_of_isHeader (h e he)

end LineBreak

namespace Resolve

theorem exists_source {es rs : List Entity} (h : List.Forall₂ SameSource es rs) {r : Entity}
    (hr : r ∈ rs) : ∃ e ∈ es, SameSource e r := by
  induction h
  case nil => cases hr
  case cons hs _ hi =>
    rcases List.mem_cons.mp hr with rfl | hr
    · exact ⟨_, .head _, hs⟩
    · obtain ⟨e, he, hs⟩ := hi hr
      exact ⟨e, .tail _ he, hs⟩

end Resolve

namespace Pipeline

variable (p : Pipeline) {b : LineBreak} {cs : List Char}

section Found

variable (hb : b = .crlf ∨ b = .cr) (hp : p.profile.SymbolsOneLine) (hr : '\r' ∉ cs)

include hb hr

theorem readText_rewrite : p.readText (ofChars (b.rewrite cs)) =
    p.readText (ofChars cs) >>= fun f => pure (b.found f) := by
  have h := LineBreak.alike_rewrite hb hr
  -- Without prototypes the entities have no line breaks that could differ.
  have hself {tags : Comment.Tags} {comments : List Comment.Candidate} :
      b.found ((Header.recognize (ofChars cs) tags p.kinds comments).1,
        (Header.recognize (ofChars cs) tags p.kinds comments).2, tags) = _ :=
    congrArg (_, ·, tags) (LineBreak.map_entity_of_isHeader
      (Header.isHeader_of_mem_recognize (wellFormed_ofChars cs)))
  simp only [readText, bind_assoc, pure_bind, Comment.empty_congr h, Header.recognize_congr h,
    h.lineCount, hself]

include hp

theorem assigned_rewrite (comments : List Comment.Candidate) {es : List Entity}
    (h : ∀ e ∈ es, e.IsHeader) :
    assigned p.profile (ofChars (b.rewrite cs)) comments es =
      assigned p.profile (ofChars cs) comments es >>= fun es => pure (es.map b.entity) := by
  have hfrom (buf : Buffer) (es : List Entity) :
      assigned p.profile buf comments es = assignedFrom p.profile buf 0 es.toArray comments := rfl
  have hmap : es.toArray = es.toArray.map b.entity := by
    rw [List.map_toArray, LineBreak.map_entity_of_isHeader h]
  have htitle : ∀ e ∈ es.toArray, Unbroken e.title.toList := by
    simpa using fun e he => (h e he).title
  rw [hfrom, hfrom, hmap, assignedFrom_rewrite hb hp hr 0 comments htitle, ← hmap]

theorem readBasic_rewrite : p.readBasic (ofChars (b.rewrite cs)) =
    p.readBasic (ofChars cs) >>= fun f => pure (b.found f) := by
  have h := LineBreak.alike_rewrite hb hr
  have hassigned (tags : Comment.Tags) (comments candidates : List Comment.Candidate) :
      assigned p.profile (ofChars (b.rewrite cs)) comments
          (Header.recognize (ofChars cs) tags p.kinds candidates).2 = _ :=
    assigned_rewrite p hb hp hr comments
      (Header.isHeader_of_mem_recognize (wellFormed_ofChars cs))
  simp only [readBasic, bind_assoc, pure_bind, Comment.candidates_congr h hp,
    Header.recognize_congr h, hassigned]
  rfl

end Found

theorem readText_yields {buf : Buffer} (hw : buf.WellFormed) :
    (p.readText buf).Yields fun f => ∀ e ∈ f.2.1, e.IsFound buf :=
  .bind (Poll.yields_true _) fun _ _ =>
    .pure fun e he => (Header.isHeader_of_mem_recognize hw e he).isFound buf

theorem readBasic_yields {buf : Buffer} (hw : buf.WellFormed) (hp : p.profile.SymbolsOneLine) :
    (p.readBasic buf).Yields fun f => ∀ e ∈ f.2.1, e.IsFound buf := by
  refine .bind (Poll.yields_true _) fun (candidates, tags) _ => ?_
  have hfound : ∀ e ∈ (Header.recognize buf tags p.kinds candidates).2.toArray, e.IsFound buf := by
    simpa using fun e he => (Header.isHeader_of_mem_recognize hw e he).isFound buf
  exact .bind (assignedFrom_yields hw hp 0 _ hfound) fun _ h => .pure h

section Documents

variable {p}

theorem parsePrototype_entity (hb : b = .crlf ∨ b = .cr) (hp : p.profile.SymbolsOneLine)
    (hr : '\r' ∉ cs) {e : Entity} (h : e.IsFound (ofChars cs)) :
    p.parsePrototype (b.entity e) = b.entity (p.parsePrototype e) := by
  have ⟨_, hprototype, hparsed⟩ := h
  cases ht : e.prototype
  case none => simp [parsePrototype, LineBreak.entity, ht]
  case some t =>
    have hreturn := (hprototype t ht).return_notMem hr
    simp [parsePrototype, LineBreak.entity, LineBreak.string, ht, ofText_rewrite hb hp hreturn]

theorem document_found (hb : b = .crlf ∨ b = .cr) (hp : p.profile.SymbolsOneLine) (hr : '\r' ∉ cs)
    (path : String) {f : Found} (h : ∀ e ∈ f.2.1, e.IsFound (ofChars cs)) :
    p.document path (b.found f) = b.document (p.document path f) := by
  have hparse : (f.2.1.map b.entity).map p.parsePrototype =
      (f.2.1.map p.parsePrototype).map b.entity := by
    rw [List.map_map, List.map_map]
    exact List.map_congr_left fun e he => parsePrototype_entity hb hp hr (h e he)
  simp only [document, LineBreak.found, hparse, Resolve.file_entity, LineBreak.document]

theorem exists_of_mem_document {path : String} {f : Found} {r : Entity}
    (hr : r ∈ (p.document path f).entities) :
    ∃ e ∈ f.2.1, r.prototype = e.prototype ∧ r.parsed = (p.parsePrototype e).parsed := by
  obtain ⟨e, he, hs⟩ := Resolve.exists_source (Resolve.entities_sameSource .initial _) hr
  obtain ⟨e, hfound, rfl⟩ := List.mem_map.mp (List.mem_of_mem_filter he)
  rw [hs]
  refine ⟨e, hfound, ?_, rfl⟩
  cases ht : e.prototype <;> simp [parsePrototype, ht]

theorem equalByFeeds_of_mem_document (hb : b = .crlf ∨ b = .cr) (hr : '\r' ∉ cs) {path : String}
    {f : Found} (h : ∀ e ∈ f.2.1, e.IsFound (ofChars cs)) {r : Entity}
    (hm : r ∈ (p.document path f).entities) :
    (∀ t ∈ r.prototype, BrokenInStrings (ofChars cs) t.toList ∧
      feeds (b.string t).toList = t.toList) ∧
    ∀ q ∈ r.parsed, EqualByFeeds q (b.prototype q) := by
  obtain ⟨e, he, hprototype, hparsed⟩ := exists_of_mem_document hm
  have hfound := h e he
  constructor
  case left =>
    intro t ht
    have hbroken := hfound.prototype t (hprototype ▸ ht)
    refine ⟨hbroken, ?_⟩
    rw [LineBreak.string, String.toList_ofList, feeds_rewrite hb (hbroken.return_notMem hr)]
  case right =>
    intro q hq
    cases ht : e.prototype
    case none => simp [hparsed, parsePrototype, ht, hfound.parsed] at hq
    case some t =>
      simp only [hparsed, parsePrototype, ht, Option.mem_some_iff] at hq
      obtain rfl := hq
      exact equalByFeeds_ofText p.profile hb ((hfound.prototype t ht).return_notMem hr)

end Documents

theorem finish_rewrite (hb : b = .crlf ∨ b = .cr) (hp : p.profile.SymbolsOneLine) (hr : '\r' ∉ cs)
    (path : String) {x x' : Poll Found} (hx : x' = x >>= fun f => pure (b.found f))
    (hy : x.Yields fun f => ∀ e ∈ f.2.1, e.IsFound (ofChars cs)) {doc : Document}
    (hd : ((x >>= fun f => pure (p.document path f)).run .never).1 = .completed doc) :
    ((x' >>= fun f => pure (p.document path f)).run .never).1 = .completed (b.document doc) ∧
      ∀ e ∈ doc.entities,
        (∀ t ∈ e.prototype, BrokenInStrings (ofChars cs) t.toList ∧
          feeds (b.string t).toList = t.toList) ∧
        ∀ q ∈ e.parsed, EqualByFeeds q (b.prototype q) := by
  subst hx
  simp only [bind_assoc, pure_bind]
  unfold Poll.run at hd ⊢
  rcases h : x .never 0 with ⟨f | _, n⟩
  case completed =>
    have hfound := hy .never 0 f n h
    rw [Poll.bind_completed h] at hd ⊢
    cases hd
    exact ⟨congrArg Outcome.completed (document_found hb hp hr path hfound),
      fun e he => equalByFeeds_of_mem_document hb hr hfound he⟩
  case cancelled =>
    rw [Poll.bind_cancelled h] at hd
    cases hd

variable {p} {profile : Profile} {kinds : KindTable}

theorem eq_of_ofProfile (h : ofProfile profile kinds = .ok p) :
    p = ⟨profile, kinds, .ofSupport profile.support, []⟩ := by
  simp only [ofProfile, bind, Except.bind] at h
  split at h
  case h_1 => cases h
  case h_2 =>
    split at h
    case h_1 => cases h
    case h_2 =>
      cases h
      rfl

theorem exists_reading (hb : b = .crlf ∨ b = .cr) (hp : p.profile.SymbolsOneLine) (hr : '\r' ∉ cs)
    (hm : p.method = .basic ∨ p.method = .textOnly) (path : String) :
    ∃ read : Buffer → Poll Found,
      (∀ source, p.parse path source =
        .ok (read (.ofString source) >>= fun f => pure (p.document path f))) ∧
      read (ofChars (b.rewrite cs)) = read (ofChars cs) >>= (fun f => pure (b.found f)) ∧
      (read (ofChars cs)).Yields fun f => ∀ e ∈ f.2.1, e.IsFound (ofChars cs) := by
  have hw := wellFormed_ofChars cs
  rcases hm with hm | hm
  case inl =>
    exact ⟨p.readBasic, fun source => by simp [parse, hm], readBasic_rewrite p hb hp hr,
      readBasic_yields p hw hp⟩
  case inr =>
    exact ⟨p.readText, fun source => by simp [parse, hm], readText_rewrite p hb hr,
      readText_yields p hw⟩

end Pipeline

end SourceDocs

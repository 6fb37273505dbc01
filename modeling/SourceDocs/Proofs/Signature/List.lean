import SourceDocs.Proofs.Signature.Pieces

namespace SourceDocs

structure Parameter where
  before : Gap
  declaration : Declaration
  after : Gap

structure Signature where
  words : List (Ident × Space)
  name : Ident
  beforeList : Gap
  parameters : List Parameter
  inside : Gap
  afterList : Gap

namespace Token

-- What a declaration is made of: the tokens of names, blanks, and the sign of a default value. None
-- of them opens or divides a list, and none is a colon.
def IsCalm (t : Token) : Prop :=
  t.IsPlain ∨ t.kind = .blank ∨ t = ⟨.symbol, ['=']⟩

theorem IsCalm.inert {t : Token} (h : t.IsCalm) : t.IsInert := by
  rcases h with h | h | rfl
  case inl => exact h.inert
  case inr.inl => exact inert_of_blank h
  case inr.inr =>
    rintro - c ⟨rfl⟩
    decide

theorem IsCalm.not_colon {t : Token} {buf : Buffer} {i : Nat} (ht : t.IsCalm)
    (hi : buf.tokens[i]? = some t) : buf.isChar i ':' = false := by
  rcases ht with ht | ht | rfl
  case inl => exact Buffer.not_isChar_plain hi (.inl ht) (by decide)
  case inr.inl => exact Buffer.not_isChar_plain hi (.inr ht) (by decide)
  case inr.inr =>
    have hsign : buf.isChar i '=' = true := Buffer.isChar_iff.mpr ⟨_, hi, rfl, rfl⟩
    exact Bool.eq_false_iff.mpr fun h => absurd (Buffer.eq_of_isChar hsign h) (by decide)

end Token

theorem Gap.calm {g : Gap} {t : Token} (ht : t ∈ g.tokens) : t.IsCalm :=
  .inr (.inl (kind_of_mem ht))

theorem Declaration.calm {d : Declaration} {t : Token} (ht : t ∈ d.tokens) : t.IsCalm := by
  rw [d.tokens_eq, List.mem_append] at ht
  rcases ht with ht | ht
  case inl => exact (Phrase.plain_or_blank ht).imp_right .inl
  case inr =>
    generalize d.default? = default? at ht
    rcases default? with _ | ⟨before, after, value⟩
    case none => simp [defaultTokens] at ht
    case some =>
      simp only [defaultTokens, List.mem_append, List.mem_cons] at ht
      rcases ht with ht | rfl | ht | ht
      · exact Gap.calm ht
      · exact .inr (.inr rfl)
      · exact Gap.calm ht
      · exact .inl (value.isPlain ht)

namespace Parameter

open Token

variable (p : Parameter)

def print : List Char :=
  p.before.chars ++ (p.declaration.print ++ p.after.chars)

theorem calm_of_mem_marked {m : Prototype.Marked} (hm : m ∈ p.declaration.marked) :
    m.1.IsCalm :=
  p.declaration.calm (p.declaration.fst_marked ▸ List.mem_map_of_mem hm)

def piece : Piece where
  before := p.before
  core := p.declaration.marked
  after := p.after
  inert _ hm := (p.calm_of_mem_marked hm).inert
  first := by
    obtain ⟨t, ht, hp⟩ := p.declaration.first_plain
    exact ⟨t, by rwa [Declaration.fst_marked], hp.not_blank⟩
  last := by
    obtain ⟨t, ht, hp⟩ := p.declaration.last_plain
    exact ⟨t, by rwa [Declaration.fst_marked], hp.not_blank⟩

theorem scan_append {c : Char} {rest : List Char} (hc : Kind.ofChar c = .symbol) :
    scan (p.print ++ c :: rest) = p.piece.tokens ++ scan (c :: rest) := by
  have ht : ∀ d ∈ (c :: rest).head?, Kind.ofChar d ≠ .text := by
    rintro d ⟨rfl⟩
    simp [hc]
  have hb : ∀ d ∈ (c :: rest).head?, Kind.ofChar d ≠ .blank := by
    rintro d ⟨rfl⟩
    simp [hc]
  simp only [print, Piece.tokens, piece, Declaration.fst_marked, List.append_assoc]
  rw [p.before.scan_append (p.declaration.head_print _),
    p.declaration.scan_print_append (p.after.head_print ht), p.after.scan_append hb]

-- As a piece of a list a parameter is marked as a declaration is.
theorem piece_showsIn {profile : Profile} {buf : Buffer} (hb : buf.WellFormed)
    (hc : Skip.Uncommented profile buf) : p.piece.ShowsIn profile buf .c := by
  intro roles i hr h he hn
  refine Declaration.markC_shows profile hb hc hr he ?holds ?stop hn
  case holds => exact p.declaration.fst_marked ▸ h
  case stop => simp [Piece.span, piece, Declaration.length_marked]

end Parameter

namespace Signature

open Token

def printList : Parameter → List Parameter → List Char
  | p, [] => p.print ++ [')']
  | p, q :: qs => p.print ++ ',' :: printList q qs

def printBody (s : Signature) : List Char :=
  match s.parameters with
  | [] => s.inside.chars ++ [')']
  | p :: ps => printList p ps

def head (s : Signature) : Declaration :=
  ⟨s.words, s.name, none⟩

def print (s : Signature) : List Char :=
  s.head.print ++ (s.beforeList.chars ++ '(' :: (s.printBody ++ s.afterList.chars))

def pieces (ps : List Parameter) : List (Separator × Piece) :=
  ps.map fun q => (.comma, q.piece)

theorem snd_pieces (p : Parameter) (ps : List Parameter) :
    p.piece :: (pieces ps).map Prod.snd = (p :: ps).map Parameter.piece := by
  simp [pieces, Function.comp_def]

def bodyTokens (s : Signature) : List Token :=
  match s.parameters with
  | [] => s.inside.tokens ++ [⟨.symbol, [')']⟩]
  | p :: ps => Piece.listTokens p.piece (pieces ps)

def tokens (s : Signature) : List Token :=
  s.head.tokens ++ (s.beforeList.tokens ++ ⟨.symbol, ['(']⟩ :: (s.bodyTokens ++ s.afterList.tokens))

theorem scan_printList_append (p : Parameter) (ps : List Parameter) (rest : List Char) :
    scan (printList p ps ++ rest) = Piece.listTokens p.piece (pieces ps) ++ scan rest := by
  induction ps generalizing p
  case nil =>
    simp only [printList, pieces, List.map_nil, Piece.listTokens, List.append_assoc,
      List.cons_append, List.nil_append]
    rw [p.scan_append (by decide), scan_symbol (by decide)]
  case cons q qs hi =>
    simp only [printList, List.append_assoc, List.cons_append]
    rw [p.scan_append (by decide), scan_symbol (by decide), hi]
    simp [pieces, Piece.listTokens, Separator.token, Separator.char]

theorem scan_print (s : Signature) : scan s.print = s.tokens := by
  have hopen : ∀ c ∈ ('(' :: (s.printBody ++ s.afterList.chars)).head?,
      Kind.ofChar c ≠ .text ∧ Kind.ofChar c ≠ .blank := by
    rintro c ⟨rfl⟩
    decide
  have hbody : scan (s.printBody ++ s.afterList.chars) = s.bodyTokens ++ s.afterList.tokens := by
    unfold printBody bodyTokens
    cases s.parameters
    case nil =>
      simp only [List.append_assoc, List.cons_append, List.nil_append]
      rw [s.inside.scan_append (by rintro c ⟨rfl⟩; decide), scan_symbol (by decide),
        s.afterList.scan_chars]
    case cons p ps => rw [scan_printList_append, s.afterList.scan_chars]
  rw [print, s.head.scan_print_append (s.beforeList.head_print fun c hc => (hopen c hc).1),
    s.beforeList.scan_append fun c hc => (hopen c hc).2, scan_symbol (by decide), hbody]
  rfl

end Signature
end SourceDocs

import SourceDocs.Profile.Basic
import SourceDocs.Proofs.Buffer
import SourceDocs.Proofs.LineBreak.Text

namespace SourceDocs

namespace Token

theorem unbroken_of_wellFormed {t : Token} (h : t.WellFormed) (hk : t.kind ≠ .lineBreak) :
    Unbroken t.chars := by
  have hbreak {c : Char} (hc : Kind.ofChar c ≠ .lineBreak) : c ≠ '\n' ∧ c ≠ '\r' :=
    ⟨fun he => hc (he ▸ rfl), fun he => hc (he ▸ rfl)⟩
  obtain ⟨kind, chars⟩ := t
  cases kind
  case text => exact fun c hc => hbreak (by simp [h.2 c hc])
  case blank => exact fun c hc => hbreak (by simp [h.2 c hc])
  case lineBreak => exact absurd rfl hk
  case symbol =>
    obtain ⟨c, hc, rfl⟩ := h
    intro d hd
    obtain rfl := List.mem_singleton.mp hd
    exact hbreak (by simp [hc])

theorem breaks_of_wellFormed {t : Token} (h : t.WellFormed) (hk : t.kind = .lineBreak) :
    t.chars ≠ [] ∧ ∀ c ∈ t.chars, c = '\n' ∨ c = '\r' := by
  simp only [WellFormed, hk] at h
  rcases h with h | h | h <;> simp [h]

end Token

-- A text on one line that is as long in bytes as in characters.
@[mk_iff]
structure OneLine (s : String) : Prop where
  ascii : ∀ c ∈ s.toList, c.toNat < 0x80
  unbroken : Unbroken s.toList

instance : DecidablePred OneLine := fun s =>
  decidable_of_iff' _ (oneLine_iff s)

@[mk_iff]
structure Profile.SymbolsOneLine (profile : Profile) : Prop where
  lineComments : ∀ s ∈ profile.lineComments, OneLine s
  blockComments : ∀ p ∈ profile.blockComments, OneLine p.opener ∧ OneLine p.closer
  javadocLines : ∀ p ∈ profile.javadocLineComments, OneLine p.first ∧ OneLine p.following
  javadocBlocks : ∀ p ∈ profile.javadocBlockComments, OneLine p.opener ∧ OneLine p.closer
  xmlLines : ∀ s ∈ profile.xmlLineComments, OneLine s
  lineExtender : ∀ s ∈ profile.lineExtender, OneLine s
  enders : ∀ e ∈ profile.prototypeEnders, ∀ s ∈ e.2.symbols, OneLine s

instance : DecidablePred Profile.SymbolsOneLine := fun profile =>
  decidable_of_iff' _ (Profile.symbolsOneLine_iff profile)

namespace Buffer

-- The same tokens, but for what the line breaks are.
structure Alike (buf buf' : Buffer) : Prop where
  wellFormed : buf.WellFormed
  wellFormed' : buf'.WellFormed
  kinds : buf'.tokens.map (·.kind) = buf.tokens.map (·.kind)
  chars : ∀ i, buf.isLineBreak i = false → buf'.chars i = buf.chars i

theorem lineStartsFrom_congr {ts us : List Token} (h : us.map (·.kind) = ts.map (·.kind))
    (i : Nat) : lineStartsFrom i us = lineStartsFrom i ts := by
  induction ts generalizing us i
  case nil => rw [List.map_eq_nil_iff.mp h]
  case cons t ts hi =>
    obtain ⟨u, us, rfl, hk, hks⟩ := List.map_eq_cons_iff.mp h
    rw [lineStartsFrom, lineStartsFrom, hk, hi hks]

-- A literal does not go on over a line break.
theorem dropLead?_breaks {ignoreCase : Bool} {cs literal : List Char} (hl : Unbroken literal)
    (hne : cs ≠ []) (hcs : ∀ c ∈ cs, c = '\n' ∨ c = '\r') :
    dropLead? ignoreCase cs literal = none := by
  obtain ⟨c, cs, rfl⟩ := List.exists_cons_of_ne_nil hne
  cases literal
  case nil => rfl
  case cons d literal =>
    have hc := hcs c (.head _)
    have hcd : c ≠ d := (hl.head_ne hc).symm
    have hlow : c.toLower = c := by rcases hc with rfl | rfl <;> rfl
    have hlt : c.toNat < 0x61 := by rcases hc with rfl | rfl <;> decide
    -- Letter case brings no other character to the place of a line break.
    rw [dropLead?, if_neg]
    rintro (h | ⟨-, h⟩)
    · exact hcd h
    · exact hcd (eq_of_toLower (h.symm.trans hlow) hlt).symm

theorem mem_of_dropLead? {ignoreCase : Bool} {cs literal rest : List Char}
    (h : dropLead? ignoreCase cs literal = some rest) {c : Char} (hc : c ∈ rest) :
    c ∈ literal := by
  fun_induction dropLead? ignoreCase cs literal
  case case1 =>
    cases h
    exact hc
  case case2 => cases h
  case case3 ih => exact .tail _ (ih h)
  case case4 => cases h

theorem WellFormed.breaks {buf : Buffer} (h : buf.WellFormed) {i : Nat}
    (hi : buf.isLineBreak i = true) :
    buf.chars i ≠ [] ∧ ∀ c ∈ buf.chars i, c = '\n' ∨ c = '\r' := by
  simp only [isLineBreak, kind?, decide_eq_true_eq, Option.map_eq_some_iff] at hi
  obtain ⟨t, ht, hk⟩ := hi
  simpa [Buffer.chars, ht] using Token.breaks_of_wellFormed (h.token ht) hk

theorem WellFormed.unbroken {buf : Buffer} (h : buf.WellFormed) {i : Nat}
    (hi : buf.isLineBreak i = false) : Unbroken (buf.chars i) := by
  simp only [isLineBreak, kind?] at hi
  cases ht : buf.tokens[i]?
  case none => simp [Buffer.chars, ht, Unbroken]
  case some t =>
    have hk : t.kind ≠ .lineBreak := by simpa [ht] using hi
    simpa [Buffer.chars, ht] using Token.unbroken_of_wellFormed (h.token ht) hk

theorem isLineBreak_of_isSymbol {buf : Buffer} {i : Nat} (h : buf.isSymbol i = true) :
    buf.isLineBreak i = false := by
  simp only [isSymbol, decide_eq_true_eq] at h
  simp [isLineBreak, h]

namespace Alike

variable {buf buf' : Buffer} (h : Alike buf buf') {i j : Nat} {s : String} {ignoreCase : Bool}

include h

theorem size : buf'.size = buf.size := by
  simpa [Buffer.size] using congrArg Array.size h.kinds

theorem kind? (i : Nat) : buf'.kind? i = buf.kind? i := by
  simpa [Buffer.kind?] using congrArg (·[i]?) h.kinds

theorem isText (i : Nat) : buf'.isText i = buf.isText i := by
  simp only [Buffer.isText, h.kind?]

theorem isBlank : buf'.isBlank = buf.isBlank := by
  funext i
  simp only [Buffer.isBlank, h.kind?]

theorem isLineBreak : buf'.isLineBreak = buf.isLineBreak := by
  funext i
  simp only [Buffer.isLineBreak, h.kind?]

theorem isSymbol (i : Nat) : buf'.isSymbol i = buf.isSymbol i := by
  simp only [Buffer.isSymbol, h.kind?]

theorem afterBlanks (i limit : Nat) : buf'.afterBlanks i limit = buf.afterBlanks i limit := by
  simp only [Buffer.afterBlanks, h.isBlank]

theorem beforeBlanks (start j : Nat) : buf'.beforeBlanks start j = buf.beforeBlanks start j := by
  simp only [Buffer.beforeBlanks, h.isBlank]

theorem lastNonBlank (i : Nat) : buf'.lastNonBlank i = buf.lastNonBlank i := by
  induction i
  case zero => rfl
  case succ i hi => rw [Buffer.lastNonBlank, h.isBlank, hi, Buffer.lastNonBlank]

theorem symbol? (i : Nat) : buf'.symbol? i = buf.symbol? i := by
  rw [Buffer.symbol?, h.isSymbol]
  split
  case isTrue hi => rw [Buffer.symbol?, if_pos hi, h.chars i (isLineBreak_of_isSymbol hi)]
  case isFalse hi => rw [Buffer.symbol?, if_neg hi]

theorem isChar : buf'.isChar = buf.isChar := by
  funext i c
  simp only [Buffer.isChar, h.symbol?]

theorem lineStarts : buf'.lineStarts = buf.lineStarts := by
  have hk := congrArg Array.toList h.kinds
  rw [Array.toList_map, Array.toList_map] at hk
  rw [buf'.lineStarts_eq, buf.lineStarts_eq, lineStartsFrom_congr hk]

theorem lineCount : buf'.lineCount = buf.lineCount := by
  rw [Buffer.lineCount, h.lineStarts, Buffer.lineCount]

theorem lineStart (line : Nat) : buf'.lineStart line = buf.lineStart line := by
  unfold Buffer.lineStart
  rw [h.lineStarts, h.size]

theorem lineEnd (line : Nat) : buf'.lineEnd line = buf.lineEnd line :=
  h.lineStart (line + 1)

theorem isToken (hs : Unbroken s.toList) (i : Nat) : buf'.isToken i s = buf.isToken i s := by
  rw [Buffer.isToken, h.size, Buffer.isToken]
  congr 1
  cases hi : buf.isLineBreak i
  case false => rw [h.chars i hi]
  case true =>
    -- The two line breaks need not be equal, but neither of them is the literal.
    have hne {cs : List Char} (hcs : cs ≠ [] ∧ ∀ c ∈ cs, c = '\n' ∨ c = '\r') :
        (cs == s.toList) = false := by
      obtain ⟨c, cs, rfl⟩ := List.exists_cons_of_ne_nil hcs.1
      refine beq_false_of_ne fun he => ?_
      exact absurd rfl ((he ▸ hs : Unbroken (c :: cs)).head_ne (hcs.2 c (.head _)))
    rw [hne (h.wellFormed.breaks hi), hne (h.wellFormed'.breaks (h.isLineBreak ▸ hi))]

theorem dropLead? {literal : List Char} (hl : Unbroken literal) (i : Nat) :
    Buffer.dropLead? ignoreCase (buf'.chars i) literal =
      Buffer.dropLead? ignoreCase (buf.chars i) literal := by
  cases hi : buf.isLineBreak i
  case false => rw [h.chars i hi]
  case true =>
    have ⟨hne, hb⟩ := h.wellFormed.breaks hi
    have ⟨hne', hb'⟩ := h.wellFormed'.breaks (h.isLineBreak ▸ hi)
    rw [dropLead?_breaks hl hne hb, dropLead?_breaks hl hne' hb']

theorem cover? {literal : List Char} (hl : Unbroken literal) (i : Nat) :
    buf'.cover? ignoreCase i literal = buf.cover? ignoreCase i literal := by
  fun_induction Buffer.cover? buf ignoreCase i literal
  case case1 => rw [Buffer.cover?, if_pos rfl]
  case case2 i literal hne hi ih =>
    -- The rest of the literal has no line breaks either.
    rw [Buffer.cover?, if_neg hne, h.size, if_pos hi, h.dropLead? hl]
    refine Option.bind_congr fun rest hrest => ?_
    rw [ih rest fun c hc => hl c (mem_of_dropLead? hrest hc)]
  case case3 i literal hne hi => rw [Buffer.cover?, if_neg hne, h.size, if_neg hi]

theorem matchLength? (hs : Unbroken s.toList) (i : Nat) :
    buf'.matchLength? i s ignoreCase = buf.matchLength? i s ignoreCase := by
  rw [Buffer.matchLength?, h.cover? hs, Buffer.matchLength?]

theorem skip? (hs : Unbroken s.toList) (i : Nat) :
    buf'.skip? i s ignoreCase = buf.skip? i s ignoreCase := by
  rw [Buffer.skip?, h.matchLength? hs, Buffer.skip?]

theorem matchesAt (hs : Unbroken s.toList) (i : Nat) : buf'.matchesAt i s = buf.matchesAt i s := by
  rw [Buffer.matchesAt, h.matchLength? hs, Buffer.matchesAt]

theorem afterChars (hs : OneLine s) {i : Nat} (hi : buf.matchesAt i s = true) :
    buf'.afterChars i s.utf8ByteSize = buf.afterChars i s.utf8ByteSize := by
  -- As many tokens are passed over as the literal stands on.
  obtain ⟨n, hn⟩ := Option.isSome_iff_exists.mp hi
  have hskip : buf.skip? i s false = some (i + n) := Option.map_eq_some_iff.mpr ⟨n, hn, rfl⟩
  have hskip' := (h.skip? hs.unbroken i).trans hskip
  rw [afterChars_of_skip? hs.ascii hskip, afterChars_of_skip? hs.ascii hskip']

end Alike
end Buffer

namespace LineBreak

variable (b : LineBreak)

def token (t : Token) : Token :=
  { t with chars := b.rewrite t.chars }

theorem flatMap_chars_map_token (ts : List Token) :
    (ts.map b.token).flatMap (·.chars) = b.rewrite (ts.flatMap (·.chars)) := by
  induction ts
  case nil => rfl
  case cons t ts hi =>
    rw [List.map_cons, List.flatMap_cons, hi, List.flatMap_cons, b.rewrite_append, token]

section Scan

variable {b} (hb : b = .crlf ∨ b = .cr) {t u : Token}

theorem token_eq_self (ht : t.WellFormed) (hk : t.kind ≠ .lineBreak) : b.token t = t := by
  simp [token, b.rewrite_unbroken (Token.unbroken_of_wellFormed ht hk)]

theorem chars_token (ht : t.WellFormed) (hr : '\r' ∉ t.chars) (hk : t.kind = .lineBreak) :
    (b.token t).chars = b.chars := by
  have hfeed : t.chars = ['\n'] := by
    simp only [Token.WellFormed, hk] at ht
    rcases ht with h | h | h
    · exact h
    · simp [h] at hr
    · simp [h] at hr
  rw [token, hfeed, b.rewrite_feed, b.rewrite_nil, List.append_nil]

include hb

theorem wellFormed_token (ht : t.WellFormed) (hr : '\r' ∉ t.chars) : (b.token t).WellFormed := by
  by_cases hk : t.kind = .lineBreak
  case neg => rwa [token_eq_self ht hk]
  case pos =>
    have hk' : (b.token t).kind = .lineBreak := hk
    simp only [Token.WellFormed, hk', chars_token ht hr hk]
    rcases hb with rfl | rfl <;> simp [crlf, cr]

-- No token is a line feed any more that a carriage return could take.
theorem apart_token (hu : u.WellFormed) (hr : '\r' ∉ u.chars) (h : Token.Apart t u) :
    Token.Apart (b.token t) (b.token u) where
  text := h.text
  blank := h.blank
  lineBreak _ hn := by
    by_cases hk : u.kind = .lineBreak
    case neg =>
      rw [token_eq_self hu hk] at hn
      have := Token.unbroken_of_wellFormed hu hk '\n' (hn ▸ .head _)
      exact this.1 rfl
    case pos =>
      rw [chars_token hu hr hk] at hn
      rcases hb with rfl | rfl <;> simp [crlf, cr] at hn

theorem scan_rewrite {cs : List Char} (hr : '\r' ∉ cs) :
    Token.scan (b.rewrite cs) = (Token.scan cs).map b.token := by
  have hc := Token.scan_canonical cs
  have hreturn : ∀ t ∈ Token.scan cs, '\r' ∉ t.chars := fun t ht hm =>
    hr (Token.mem_chars_of_mem_scan ht hm)
  -- The tokens with the new line breaks are such as a scan gives, and so they are those of the text
  -- that they make up.
  have hmap : Token.Canonical ((Token.scan cs).map b.token) := by
    constructor
    case wellFormed =>
      simp only [List.mem_map, forall_exists_index, and_imp, forall_apply_eq_imp_iff₂]
      exact fun t ht => wellFormed_token hb (hc.wellFormed t ht) (hreturn t ht)
    case apart =>
      refine (List.isChain_map _).mpr (hc.apart.imp_of_mem_imp fun t u _ hu h => ?_)
      exact apart_token hb (hc.wellFormed u hu) (hreturn u hu) h
  have hscan := Token.scan_flatMap_chars hmap
  rwa [flatMap_chars_map_token, Token.flatMap_chars_scan] at hscan

variable {cs : List Char} (hr : '\r' ∉ cs)

include hr

theorem tokens_rewrite :
    (Buffer.ofChars (b.rewrite cs)).tokens = (Buffer.ofChars cs).tokens.map b.token := by
  simp [Buffer.ofChars, Buffer.ofTokens, scan_rewrite hb hr]

theorem chars_rewrite (i : Nat) :
    (Buffer.ofChars (b.rewrite cs)).chars i = b.rewrite ((Buffer.ofChars cs).chars i) := by
  rw [Buffer.chars, tokens_rewrite hb hr, Buffer.chars, Array.getElem?_map]
  cases (Buffer.ofChars cs).tokens[i]? <;> rfl

theorem slice_rewrite (i j : Nat) :
    (Buffer.ofChars (b.rewrite cs)).slice i j = b.rewrite ((Buffer.ofChars cs).slice i j) := by
  rw [Buffer.slice, tokens_rewrite hb hr, ← Array.map_extract, Array.toList_map,
    flatMap_chars_map_token, Buffer.slice]

theorem alike_rewrite : Buffer.Alike (Buffer.ofChars cs) (Buffer.ofChars (b.rewrite cs)) where
  wellFormed := Buffer.wellFormed_ofChars cs
  wellFormed' := Buffer.wellFormed_ofChars (b.rewrite cs)
  kinds := by
    rw [tokens_rewrite hb hr, Array.map_map]
    rfl
  chars i hi := by
    rw [chars_rewrite hb hr]
    exact b.rewrite_unbroken ((Buffer.wellFormed_ofChars cs).unbroken hi)

end Scan

end LineBreak
end SourceDocs

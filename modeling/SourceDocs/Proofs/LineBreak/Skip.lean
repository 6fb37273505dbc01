import SourceDocs.Proofs.LineBreak.Buffer
import SourceDocs.Proofs.Nesting

namespace SourceDocs.Skip

open Buffer

variable {profile : Profile} {buf buf' : Buffer} {i : Nat}

theorem oneLine_of_blockSymbols? (hp : profile.SymbolsOneLine) {s : BlockSymbols}
    (hs : blockSymbols? profile buf i = some s) : OneLine s.opener ∧ OneLine s.closer :=
  hp.blockComments s (List.mem_of_find?_eq_some hs)

section Quoted

variable (hp : profile.SymbolsOneLine) (h : Alike buf buf')

include h

theorem closeString_congr (quote : Char) (i : Nat) :
    closeString buf' quote i = closeString buf quote i := by
  fun_induction closeString buf quote i <;> rw [closeString]
  all_goals simp_all [h.size, h.isChar]

theorem string?_congr (i : Nat) : string? buf' i = string? buf i := by
  simp only [string?, h.symbol?, closeString_congr h]

include hp

theorem lineSymbol?_congr (i : Nat) : lineSymbol? profile buf' i = lineSymbol? profile buf i :=
  List.find?_congr fun s hs => h.matchesAt (hp.lineComments s hs).unbroken i

theorem lineComment?_congr (i : Nat) :
    lineComment? profile buf' i = lineComment? profile buf i := by
  rw [lineComment?, lineSymbol?_congr hp h, lineComment?]
  refine Option.map_congr fun s hs => ?_
  have hone := hp.lineComments s (List.mem_of_find?_eq_some hs)
  rw [h.afterChars hone (List.find?_some hs), h.isLineBreak, h.size]

theorem blockSymbols?_congr (i : Nat) :
    blockSymbols? profile buf' i = blockSymbols? profile buf i :=
  List.find?_congr fun s hs => h.matchesAt (hp.blockComments s hs).1.unbroken i

theorem afterOpener_congr {s : BlockSymbols} (hs : blockSymbols? profile buf i = some s) :
    buf'.afterChars i s.opener.utf8ByteSize = buf.afterChars i s.opener.utf8ByteSize :=
  h.afterChars (oneLine_of_blockSymbols? hp hs).1 (by simpa using List.find?_some hs)

theorem closeComments_congr (i : Nat) {closers : List String} (hc : ∀ s ∈ closers, OneLine s) :
    closeComments profile buf' i closers = closeComments profile buf i closers := by
  fun_induction closeComments profile buf i closers
  case case1 => rw [closeComments]
  case case2 i closer outer hi j hj ih =>
    have hj' := (h.skip? (hc _ (.head _)).unbroken i).trans hj
    rw [closeComments_close (h.size ▸ hi) hj', ih fun s hs => hc s (.tail _ hs)]
  case case3 i closer outer hi hn s hs ih =>
    have hn' := (h.skip? (hc _ (.head _)).unbroken i).trans hn
    rw [dite_eq_ite] at hs
    -- Only where comments nest an opener counts in a comment.
    have hs' : blockSymbols? profile buf i = some s := by
      split at hs
      · exact hs
      · cases hs
    rw [closeComments_open (h.size ▸ hi) hn' (by rw [blockSymbols?_congr hp h, hs]),
      afterOpener_congr hp h hs', ih]
    exact List.forall_mem_cons.mpr ⟨(oneLine_of_blockSymbols? hp hs').2, hc⟩
  case case4 i closer outer hi hn hs ih =>
    have hn' := (h.skip? (hc _ (.head _)).unbroken i).trans hn
    rw [dite_eq_ite] at hs
    rw [closeComments_other (h.size ▸ hi) hn' (by rw [blockSymbols?_congr hp h, hs]), ih hc]
  case case5 i closer outer hi => rw [closeComments_end (by rw [h.size]; omega)]

theorem blockComment?_congr (i : Nat) :
    blockComment? profile buf' i = blockComment? profile buf i := by
  rw [blockComment?, blockSymbols?_congr hp h, blockComment?]
  refine Option.map_congr fun s hs => ?_
  have hc : ∀ c ∈ [s.closer], OneLine c := by simpa using (oneLine_of_blockSymbols? hp hs).2
  rw [afterOpener_congr hp h hs, closeComments_congr hp h _ hc]

theorem quoted?_congr (i : Nat) : quoted? profile buf' i = quoted? profile buf i := by
  simp only [quoted?, comment?, blockComment?_congr hp h, lineComment?_congr hp h, string?_congr h]

end Quoted

section Blocks

variable (hp : profile.SymbolsOneLine) (h : Alike buf buf')

include hp h

theorem closeBlocks_congr (angle : Bool) (i : Nat) (closers : List Char) :
    closeBlocks profile buf' angle i closers = closeBlocks profile buf angle i closers := by
  -- Brackets are single symbols, and what is quoted has been dealt with.
  have ho (i : Nat) : opens? buf' angle i = opens? buf angle i := by simp only [opens?, h.symbol?]
  have hq := quoted?_congr hp h
  fun_induction closeBlocks profile buf angle i closers
  case case1 => exact closeBlocks_nil
  case case2 hi c hc ih => rw [closeBlocks_open (h.size ▸ hi) (ho _ ▸ hc), ih]
  case case3 hi hn hc ih => rw [closeBlocks_close (h.size ▸ hi) (ho _ ▸ hn) (h.isChar ▸ hc), ih]
  case case4 hi hn hc j hj ih =>
    rw [closeBlocks_quoted (h.size ▸ hi) (ho _ ▸ hn) (by simpa [h.isChar] using hc)
      ((hq _).trans hj), ih]
  case case5 hi hn hc hj ih =>
    rw [closeBlocks_other (h.size ▸ hi) (ho _ ▸ hn) (by simpa [h.isChar] using hc)
      ((hq _).trans hj), ih]
  case case6 hi => exact closeBlocks_end (by rw [h.size]; omega)

theorem block?_congr (angle : Bool) (i : Nat) :
    block? profile buf' angle i = block? profile buf angle i := by
  simp only [block?, opens?, h.symbol?, closeBlocks_congr hp h]

theorem enclosed?_congr (angle : Bool) (i : Nat) :
    enclosed? profile buf' angle i = enclosed? profile buf angle i := by
  simp only [enclosed?, quoted?_congr hp h, block?_congr hp h]

end Blocks

section Names

variable (hp : profile.SymbolsOneLine) (h : Alike buf buf')

include h

theorem isNameSymbol_congr : isNameSymbol buf' = isNameSymbol buf := by
  funext i
  simp only [isNameSymbol, h.symbol?]

theorem isPointer_congr : isPointer buf' = isPointer buf := by
  funext i
  simp only [isPointer, h.symbol?]

theorem isTypeSuffix_congr (i : Nat) : isTypeSuffix buf' i = isTypeSuffix buf i := by
  simp only [isTypeSuffix, isPointer_congr h, h.isToken (show Unbroken "const".toList by decide),
    h.isChar]

theorem afterSuffixes_congr (limit i next : Nat) :
    afterSuffixes buf' limit i next = afterSuffixes buf limit i next := by
  fun_induction afterSuffixes buf limit i next <;> rw [afterSuffixes]
  all_goals simp_all [isTypeSuffix_congr h, h.afterBlanks]

include hp

theorem typeArguments?_congr (limit i : Nat) :
    typeArguments? profile buf' limit i = typeArguments? profile buf limit i := by
  simp only [typeArguments?, h.lastNonBlank, h.isToken (show Unbroken "operator".toList by decide),
    block?_congr hp h]

theorem nameEnd_congr (limit i : Nat) :
    nameEnd profile buf' limit i = nameEnd profile buf limit i := by
  have hc : Unbroken "::".toList := by decide
  fun_induction nameEnd profile buf limit i <;> rw [nameEnd]
  all_goals
    simp only [h.isText, isNameSymbol_congr h, h.isChar, h.matchesAt hc, h.isBlank,
      afterSuffixes_congr h, h.afterBlanks]
    grind [typeArguments?_congr hp h, block?_congr hp h]

theorem name?_congr (limit i : Nat) : name? profile buf' limit i = name? profile buf limit i := by
  simp only [name?, h.isText, isNameSymbol_congr h, nameEnd_congr hp h]

end Names

end SourceDocs.Skip

import SourceDocs.Proofs.Cancellation
import SourceDocs.Proofs.LineBreak.Normalize
import SourceDocs.Proofs.LineBreak.Title
import SourceDocs.Prototype.Search

namespace SourceDocs.Prototype

open Buffer

variable {profile : Profile}

section Places

variable {buf buf' : Buffer} (hp : profile.SymbolsOneLine) (h : Alike buf buf') {enders : Enders}

include h

theorem codeStart?_congr (endLine line : Nat) :
    codeStart? buf' endLine line = codeStart? buf endLine line := by
  fun_induction codeStart? buf endLine line <;> rw [codeStart?]
  all_goals
    simp only [h.lineCount, h.size, h.isLineBreak, h.lineStart, h.afterBlanks]
    grind

-- That a line break ends a prototype is said apart from the symbols that do.
theorem endsAt_congr (he : ∀ s ∈ enders.symbols, OneLine s) (i : Nat) :
    endsAt profile buf' enders i = endsAt profile buf enders i := by
  unfold endsAt
  rw [Bool.eq_iff_iff, List.any_eq_true, List.any_eq_true]
  refine exists_congr fun s => and_congr_right fun hs => ?_
  rw [h.matchLength? (he s hs).unbroken]

include hp

theorem findEnder_congr (he : ∀ s ∈ enders.symbols, OneLine s) (limit : Nat) (extended : Bool)
    (i : Nat) :
    findEnder profile buf' enders limit extended i =
      findEnder profile buf enders limit extended i := by
  fun_induction findEnder profile buf enders limit extended i <;> rw [findEnder]
  all_goals
    simp only [h.isLineBreak, endsAt_congr h he, isInIdentifier_congr h]
    grind [extender?_congr hp h, afterExtender_congr hp h, Skip.enclosed?_congr hp h]

theorem span_congr (he : ∀ s ∈ enders.symbols, OneLine s) (startLine endLine : Nat) :
    span profile buf' enders startLine endLine = span profile buf enders startLine endLine := by
  simp only [span, codeStart?_congr h, h.size, h.lineStart, h.afterBlanks, h.beforeBlanks,
    findEnder_congr hp h he]

end Places

section Find

variable {b : LineBreak} {cs title : List Char} {enders : Enders}
  (hb : b = .crlf ∨ b = .cr) (hp : profile.SymbolsOneLine) (hr : '\r' ∉ cs)
  (ht : Unbroken title) (he : ∀ s ∈ enders.symbols, OneLine s)

include hb hp hr ht he

theorem find_rewrite (startLine endLine : Nat) :
    find profile (ofChars (b.rewrite cs)) title enders startLine endLine =
      find profile (ofChars cs) title enders startLine endLine >>= fun found =>
        pure (found.map b.rewrite) := by
  -- The title is looked for before the code is brought onto one line.
  have hfound (found : Option (Nat × Nat)) :
      (found.filter fun s => titleMatches title ((ofChars (b.rewrite cs)).slice s.1 s.2)).map
          (fun s => normalize profile (ofChars (b.rewrite cs)) s.1 s.2) =
        ((found.filter fun s => titleMatches title ((ofChars cs).slice s.1 s.2)).map
          fun s => normalize profile (ofChars cs) s.1 s.2).map b.rewrite := by
    simp only [LineBreak.slice_rewrite hb hr, titleMatches_rewrite b ht,
      normalize_rewrite hb hp hr, Option.map_map, Function.comp_def]
  simp only [find, span_congr hp (LineBreak.alike_rewrite hb hr) he, hfound, bind_assoc, pure_bind]

end Find

end SourceDocs.Prototype

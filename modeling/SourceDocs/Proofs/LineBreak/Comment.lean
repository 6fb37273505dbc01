import SourceDocs.Comment.Scan
import SourceDocs.Header
import SourceDocs.Proofs.LineBreak.Skip

namespace SourceDocs

namespace Comment

open Buffer

variable {profile : Profile} {buf buf' : Buffer} (h : Alike buf buf')

theorem findSome?_congr {α β : Type} {f g : α → Option β} {xs : List α}
    (h : ∀ x ∈ xs, f x = g x) : xs.findSome? f = xs.findSome? g := by
  induction xs
  case nil => rfl
  case cons x xs hi =>
    rw [List.findSome?_cons, List.findSome?_cons, h x (.head _), hi fun y hy => h y (.tail _ hy)]

section Lines

include h

theorem lineStop_congr : lineStop buf' = lineStop buf := by
  funext line
  simp only [lineStop, h.lineEnd, h.lineStart, h.isLineBreak]

theorem lineFirst_congr : lineFirst buf' = lineFirst buf := by
  funext line
  simp only [lineFirst, h.afterBlanks, h.lineStart, lineStop_congr h]

theorem isLineRest_congr (line i : Nat) : isLineRest buf' line i = isLineRest buf line i := by
  simp only [isLineRest, h.afterBlanks, lineStop_congr h, h.isLineBreak, h.size]

theorem afterSymbol?_congr {symbol : String} (hs : Unbroken symbol.toList) (line : Nat)
    (alone : Bool) : afterSymbol? buf' line symbol alone = afterSymbol? buf line symbol alone := by
  simp only [afterSymbol?, h.skip? hs, lineFirst_congr h, h.isSymbol]

theorem symbolRun_congr {symbol : String} (hs : Unbroken symbol.toList) (line : Nat) :
    symbolRun buf' symbol line = symbolRun buf symbol line := by
  fun_induction symbolRun buf symbol line <;> rw [symbolRun]
  all_goals simp_all [h.lineCount, h.skip? hs, lineFirst_congr h]

theorem readLines?_congr {first following : String} (hf : Unbroken first.toList)
    (hs : Unbroken following.toList) (line : Nat) (alone : Bool) :
    readLines? buf' line first following alone = readLines? buf line first following alone := by
  simp only [readLines?, afterSymbol?_congr h hf, symbolRun_congr h hs, lineFirst_congr h]

end Lines

-- The length in bytes of a closer is passed over only where the closer stands.
theorem matchesAt_of_findCloser? {closer : String} {line i : Nat} {p : Nat × Nat}
    (hc : findCloser? buf closer line i = some p) : buf.matchesAt p.2 closer = true := by
  fun_induction findCloser? buf closer line i
  case case1 hj =>
    cases hc
    exact of_seek_lt hj
  case case2 ih => exact ih hc
  case case3 => cases hc

section Blocks

include h

theorem findCloser?_congr {closer : String} (hs : Unbroken closer.toList) (line i : Nat) :
    findCloser? buf' closer line i = findCloser? buf closer line i := by
  have hm : (buf'.matchesAt · closer) = (buf.matchesAt · closer) := funext (h.matchesAt hs)
  fun_induction findCloser? buf closer line i <;> rw [findCloser?, hm]
  all_goals
    simp only [lineStop_congr h, lineFirst_congr h, h.lineCount]
    grind

theorem readBlock?_congr {symbols : BlockSymbols} (ho : OneLine symbols.opener)
    (hc : OneLine symbols.closer) (line : Nat) (alone : Bool) :
    readBlock? buf' line symbols alone = readBlock? buf line symbols alone := by
  rw [readBlock?, afterSymbol?_congr h ho.unbroken, readBlock?]
  refine Option.bind_congr fun afterOpener _ => ?_
  rw [findCloser?_congr h hc.unbroken]
  cases hf : findCloser? buf symbols.closer line afterOpener
  case none => rw [h.lineCount]
  case some found =>
    have hm := matchesAt_of_findCloser? hf
    simp only [h.afterChars hc hm, isLineRest_congr h, lineFirst_congr h]

theorem isCheckerNote_congr {symbols : BlockSymbols} (ho : Unbroken symbols.opener.toList)
    (c : Candidate) : isCheckerNote buf' symbols c = isCheckerNote buf symbols c := by
  simp only [isCheckerNote, h.skip? ho, lineFirst_congr h, lineStop_congr h, h.beforeBlanks,
    h.afterBlanks, h.isChar]

end Blocks

section Readings

variable (hp : profile.SymbolsOneLine)

include h hp

theorem readJavadocLines?_congr (line : Nat) :
    readJavadocLines? buf' profile line = readJavadocLines? buf profile line :=
  findSome?_congr fun p hm =>
    have ⟨hf, hs⟩ := hp.javadocLines p hm
    readLines?_congr h hf.unbroken hs.unbroken line true

theorem read?_congr (line : Nat) : read? buf' profile line = read? buf profile line := by
  -- Each style of comment is tried with its own symbols, all of which are on one line.
  have hjavadocBlock (s : BlockSymbols) (hs : s ∈ profile.javadocBlockComments) :=
    have ⟨ho, hc⟩ := hp.javadocBlocks s hs
    readBlock?_congr h ho hc line true
  have hblock (s : BlockSymbols) (hs : s ∈ profile.blockComments) :=
    have ⟨ho, hc⟩ := hp.blockComments s hs
    And.intro (readBlock?_congr h ho hc line false) (isCheckerNote_congr h ho.unbroken)
  have hxml (s : String) (hs : s ∈ profile.xmlLineComments) :=
    have hone := hp.xmlLines s hs
    readLines?_congr h hone.unbroken hone.unbroken line true
  have hplain (s : String) (hs : s ∈ profile.lineComments) :=
    have hone := hp.lineComments s hs
    readLines?_congr h hone.unbroken hone.unbroken line false
  rw [read?, readJavadocLines?_congr h hp, read?, findSome?_congr hxml, findSome?_congr hplain]
  congr 1
  · exact findSome?_congr fun s hs => by rw [hjavadocBlock s hs]
  · congr 1
    exact findSome?_congr fun s hs => by simp only [hblock s hs]

theorem readings_congr (line : Nat) : readings buf' profile line = readings buf profile line := by
  fun_induction readings buf profile line <;> rw [readings]
  all_goals simp_all [h.lineCount, read?_congr h hp]

end Readings

section Tags

include h

theorem isRule_congr : isRule buf' = isRule buf := by
  funext i stop
  simp only [isRule, h.symbol?, h.isChar]

theorem lineContent_congr : lineContent buf' = lineContent buf := by
  funext tags line
  simp only [lineContent, lineStop_congr h, lineFirst_congr h, h.afterBlanks, h.beforeBlanks]

theorem tagRule_congr : tagRule buf' = tagRule buf := by
  funext tags line
  rw [tagRule, lineContent_congr h, isRule_congr h, tagRule]

theorem tag_congr (r : Reading) (tags : Tags) : r.tag buf' tags = r.tag buf tags := by
  simp only [Reading.tag, tagRule_congr h]

-- The readings are the same already, and so are the tags that each of them sets.
theorem scanReadings_congr (signal : Signal) (tags : Tags) (n : Nat) (rs : List (Option Reading)) :
    scanReadings buf' signal tags n rs = scanReadings buf signal tags n rs := by
  induction rs generalizing tags n
  case nil => rfl
  case cons r rs hi => cases r <;> simp only [scanReadings, tag_congr h, hi]

theorem empty_congr : Tags.empty buf' = Tags.empty buf := by
  simp only [Tags.empty, h.size]

theorem candidates_congr (hp : profile.SymbolsOneLine) :
    candidates buf' profile = candidates buf profile := by
  funext signal n
  simp only [candidates, scan, empty_congr h, readings_congr h hp, scanReadings_congr h]

end Tags

end Comment

namespace Header

open Buffer

variable {buf buf' : Buffer} (h : Alike buf buf')

include h

-- The line break at the end of a line is no part of what the line says.
theorem lineText_congr (tags : Comment.Tags) (line : Nat) :
    lineText buf' tags line = lineText buf tags line := by
  have hown (positions : List Nat) :
      (positions.filter fun i => tags.get i = none && !buf.isLineBreak i).flatMap buf'.chars =
        (positions.filter fun i => tags.get i = none && !buf.isLineBreak i).flatMap buf.chars := by
    refine List.flatMap_congr fun i hi => h.chars i ?_
    have hi := (List.mem_filter.mp hi).2
    simp only [Bool.and_eq_true, Bool.not_eq_true'] at hi
    exact hi.2
  simp only [lineText, h.lineStart, h.lineEnd, h.isLineBreak, hown]

theorem entitiesOf_congr (tags : Comment.Tags) (kinds : KindTable) :
    entitiesOf buf' tags kinds = entitiesOf buf tags kinds := by
  funext c
  simp only [entitiesOf, lines, lineText_congr h]

theorem recognize_congr (tags : Comment.Tags) (kinds : KindTable)
    (comments : List Comment.Candidate) :
    recognize buf' tags kinds comments = recognize buf tags kinds comments := by
  simp only [recognize, entitiesOf_congr h]

end Header
end SourceDocs

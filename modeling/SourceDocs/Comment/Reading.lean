import SourceDocs.Buffer
import SourceDocs.Profile.Basic
import SourceDocs.Comment.Candidate

namespace SourceDocs.Comment

structure Span where
  start : Nat
  stop : Nat
deriving DecidableEq, Repr

structure Reading where
  next : Nat
  candidate : Option Candidate
  delimiters : List Span
deriving DecidableEq, Repr

variable (buf : Buffer)

def lineStop (line : Nat) : Nat :=
  let stop := buf.lineEnd line
  if buf.lineStart line < stop ∧ buf.isLineBreak (stop - 1) then stop - 1 else stop

def lineFirst (line : Nat) : Nat :=
  buf.afterBlanks (buf.lineStart line) (lineStop buf line)

-- If the symbol has to be `alone`, no other symbol may follow it directly.
def afterSymbol? (line : Nat) (symbol : String) (alone : Bool) : Option Nat :=
  (buf.skip? (lineFirst buf line) symbol false).filter fun i => !(alone && buf.isSymbol i)

-- The closer is looked for from `i` on, a position on `line`. It does not start at the line break.
def findCloser? (closer : String) (line i : Nat) : Option (Nat × Nat) :=
  let stop := lineStop buf line
  let j := Buffer.seek (buf.matchesAt · closer) i stop
  if j < stop then some (line, j)
  else if line < buf.lineCount then findCloser? closer (line + 1) (lineFirst buf (line + 1))
  else none
termination_by buf.lineCount - line

def isLineRest (line i : Nat) : Bool :=
  let j := buf.afterBlanks i (lineStop buf line)
  buf.isLineBreak j || buf.size ≤ j || j = lineStop buf line

-- Without a closer the block takes the rest of the text.
def readBlock? (line : Nat) (symbols : BlockSymbols) (alone : Bool) : Option Reading := do
  let afterOpener ← afterSymbol? buf line symbols.opener alone
  match findCloser? buf symbols.closer line afterOpener with
  | none => return ⟨buf.lineCount + 1, none, []⟩
  | some (last, i) =>
    let afterCloser := buf.afterChars i symbols.closer.utf8ByteSize
    if isLineRest buf last afterCloser then
      return ⟨last + 1, some (.plain line (last + 1)),
        [⟨lineFirst buf line, afterOpener⟩, ⟨i, afterCloser⟩]⟩
    else
      return ⟨last + 1, none, []⟩

-- An annotation for a checker stands between two `@`, and belongs to the code.
def isCheckerNote (symbols : BlockSymbols) (c : Candidate) : Bool :=
  match buf.skip? (lineFirst buf c.startLine) symbols.opener false with
  | none => false
  | some start =>
    -- The closer is taken to be as many tokens as it has characters.
    let closer := buf.beforeBlanks start (lineStop buf (c.endLine - 1)) - symbols.closer.length
    let first := buf.afterBlanks start closer
    let stop := buf.beforeBlanks first closer
    first < stop && buf.isChar first '@' && buf.isChar (stop - 1) '@'

def symbolRun (symbol : String) (line : Nat) : List Span :=
  if line ≤ buf.lineCount then
    match buf.skip? (lineFirst buf line) symbol false with
    | some i => ⟨lineFirst buf line, i⟩ :: symbolRun symbol (line + 1)
    | none => []
  else
    []
termination_by buf.lineCount + 1 - line

def readLines? (line : Nat) (first following : String) (alone : Bool) :
    Option (Candidate × List Span) := do
  let afterFirst ← afterSymbol? buf line first alone
  let rest := symbolRun buf following (line + 1)
  return (.plain line (line + 1 + rest.length), ⟨lineFirst buf line, afterFirst⟩ :: rest)

def Reading.ofLines (c : Candidate) (delimiters : List Span) : Reading :=
  ⟨c.endLine, some c, delimiters⟩

def readJavadocLines? (profile : Profile) (line : Nat) : Option (Candidate × List Span) :=
  profile.javadocLineComments.findSome? fun p => readLines? buf line p.first p.following true

-- Javadoc and XML lines may start with the same symbol. Of the two readings the longer one counts;
-- a single line may be either; otherwise the repeated symbol tells XML. The symbols of both
-- readings set the comment off.
def chooseReading (xml : Candidate × List Span) : Option (Candidate × List Span) → Reading
  | none => .ofLines xml.1.asXml xml.2
  | some javadoc =>
    let chosen :=
      -- A Javadoc symbol on the first line and the plain one on the others.
      if xml.1.endLine < javadoc.1.endLine then javadoc.1.asJavadoc
      -- One line, which does not tell.
      else if javadoc.1.endLine = xml.1.endLine ∧ xml.1.lineCount = 1 then xml.1.asJavadoc
      else xml.1.asXml
    .ofLines chosen (xml.2 ++ javadoc.2)

-- A Javadoc opener begins like a plain one, and a plain one may begin like a line symbol. So the
-- styles are tried in this order: Javadoc blocks, plain blocks, XML and Javadoc lines, plain lines.
def read? (profile : Profile) (line : Nat) : Option Reading :=
  let javadocBlock := profile.javadocBlockComments.findSome? fun s =>
    (readBlock? buf line s true).map fun r => { r with candidate := r.candidate.map (·.asJavadoc) }
  let block := profile.blockComments.findSome? fun s =>
    (readBlock? buf line s false).map fun r =>
      { r with candidate := r.candidate.filter (!isCheckerNote buf s ·) }
  let xml := (profile.xmlLineComments.findSome? fun s => readLines? buf line s s true).map fun r =>
    chooseReading r (readJavadocLines? buf profile line)
  let javadoc := (readJavadocLines? buf profile line).map fun r => .ofLines r.1.asJavadoc r.2
  let plain := (profile.lineComments.findSome? fun s => readLines? buf line s s false).map fun r =>
    .ofLines r.1 r.2
  javadocBlock.or (block.or (xml.or (javadoc.or plain)))

end SourceDocs.Comment

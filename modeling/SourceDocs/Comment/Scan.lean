import SourceDocs.Comment.Reading
import SourceDocs.Comment.Tags
import SourceDocs.Poll

namespace SourceDocs.Comment

variable (buf : Buffer)

-- The lines on which the scan stands, and what it reads there, depend on the text alone. After a
-- comment it stands on the line behind it. Polls and tags come on top.
def readings (profile : Profile) (line : Nat) : List (Option Reading) :=
  if line ≤ buf.lineCount then
    match read? buf profile line with
    | none => none :: readings profile (line + 1)
    -- A comment takes at least the line it starts on.
    | some r => some r :: readings profile (max r.next (line + 1))
  else
    []
termination_by buf.lineCount + 1 - line

-- At least three times the same symbol and nothing else.
def isRule (i stop : Nat) : Bool :=
  match buf.symbol? i with
  | some c => i + 3 ≤ stop && (List.range' i (stop - i)).all (buf.isChar · c)
  | none => false

def lineContent (tags : Tags) (line : Nat) : Span :=
  let stop := lineStop buf line
  let isDelimiter (i : Nat) : Bool := tags.get i = some .delimiter
  let start := buf.afterBlanks (Buffer.seek (!isDelimiter ·) (lineFirst buf line) stop) stop
  ⟨start, buf.beforeBlanks start (Buffer.retreat isDelimiter start stop)⟩

def tagRule (tags : Tags) (line : Nat) : Tags :=
  let content := lineContent buf tags line
  if isRule buf content.start content.stop then
    tags.setRange content.start content.stop (some .decoration)
  else
    tags

def Reading.tag (r : Reading) (tags : Tags) : Tags :=
  let tags := r.delimiters.foldl (fun t s => t.setRange s.start s.stop (some .delimiter)) tags
  match r.candidate with
  | some c => c.lines.foldl (tagRule buf) tags
  | none => tags

structure Scan where
  outcome : Outcome (List Candidate)
  tags : Tags
  polls : Nat

def scanReadings (signal : Signal) (tags : Tags) (n : Nat) : List (Option Reading) → Scan
  | [] => ⟨.completed [], tags, n⟩
  | r :: rest =>
    if signal n then
      ⟨.cancelled, tags, n + 1⟩
    else
      match r with
      | none => scanReadings signal tags (n + 1) rest
      | some r =>
        let scan := scanReadings signal (r.tag buf tags) (n + 1) rest
        { scan with outcome := scan.outcome.map (r.candidate.toList ++ ·) }

-- Scans the text for comments, over a table of tags that may already have some.
def scan (profile : Profile) (tags : Tags) (signal : Signal) (n : Nat) : Scan :=
  scanReadings buf signal tags n (readings buf profile 1)

def candidates (profile : Profile) : Poll (List Candidate × Tags) := fun signal n =>
  let s := scan buf profile (.empty buf) signal n
  (s.outcome.map (·, s.tags), s.polls)

end SourceDocs.Comment

import SourceDocs.CommandLine.Arguments
import SourceDocs.CommandLine.Log
import SourceDocs.Config.Registry
import SourceDocs.Files.Glob
import SourceDocs.Pipeline
import SourceDocs.Render.Format

namespace SourceDocs.CommandLine

open Files

structure Exit where
  code : Nat
  stdout : String
  error : Option String
  warnings : List String
  tree : Tree

namespace Exit

def success (tree : Tree) (warnings : List String) (stdout : String) : Exit :=
  ⟨0, stdout, none, warnings.map logText, tree⟩

def failure (tree : Tree) (warnings : List String) (error : String) : Exit :=
  ⟨1, "", some error, warnings.map logText, tree⟩

def misuse (tree : Tree) : Exit :=
  ⟨2, "", none, [], tree⟩

end Exit

-- What a run does not change.
structure Job where
  arguments : Arguments
  registry : Registry
  -- How many milliseconds after the beginning of a file each of its polls is made.
  elapsed : (path : String) → (poll : Nat) → Nat
  -- The expansion of patterns. A malformed one has none.
  paths? : Tree → (pattern : String) → Option (List String)

namespace Job

variable (job : Job)

-- A file is given up at the first poll at which its time has passed.
def signal (path : String) : Signal :=
  match job.arguments.timeout with
  | none => .never
  | some limit => fun n => decide (limit ≤ job.elapsed path n)

def format : Except String Render.Format :=
  let name := job.arguments.format.getD "json"
  match Render.Format.ofName? name with
  | some f => .ok f
  | none => .error (Render.Format.unknownMessage name)

def extract (profile : Profile) (path source : String) :
    Except ProfileError (Outcome Document) := do
  let pipeline ← Pipeline.ofProfile profile job.registry.kinds
  let document ← pipeline.parse path source
  return (document.run (job.signal path)).1

def document (stdin : ByteArray) : Except String String := do
  let some source := String.fromUTF8? stdin | throw "failed to read stdin"
  let profile ← (job.registry.byName (job.arguments.language.getD "c")).mapError (·.message)
  let format ← job.format
  match ← (job.extract profile "<stdin>" source).mapError (·.message) with
  | .completed d => return format.render d
  | .cancelled => throw "timed out parsing stdin"

-- The files that an input stands for: itself, the files of known languages in a directory, or what
-- a pattern fits.
def expandInput? (tree : Tree) (input : String) : Option (List String) :=
  if tree.hasFile input then some [input]
  else if tree.hasDirectory input then
    let paths := (tree.names input).map (Path.join input)
    some (paths.filter fun p => tree.hasFile p && (job.registry.forPath p).toOption.isSome)
  else
    (job.paths? tree input).map (·.filter tree.hasFile)

def isUnmatched (tree : Tree) (input : String) (paths : List String) : Bool :=
  paths.isEmpty && !tree.hasDirectory input

def dropRepeated : List String → List String
  | [] => []
  | [p] => [p]
  | p :: q :: rest =>
    if Path.same p q then dropRepeated (p :: rest) else p :: dropRepeated (q :: rest)
termination_by ps => ps.length

def insertPath (path : String) : List String → List String
  | [] => [path]
  | p :: rest => if Path.lt path p then path :: p :: rest else p :: insertPath path rest

-- The paths in order, each once and as it is first given.
def sortPaths (paths : List String) : List String :=
  dropRepeated (paths.foldl (fun sorted p => insertPath p sorted) [])

def expand (tree : Tree) : List String → List String × Except String (List String)
  | [] => ([], .ok [])
  | input :: rest =>
    match job.expandInput? tree input with
    | none => ([], .error ("invalid glob pattern: " ++ input))
    | some paths =>
      let (warnings, others) := expand tree rest
      let warning :=
        if isUnmatched tree input paths then ["no files matched: " ++ input] else []
      (warning ++ warnings, others.map (paths ++ ·))

inductive Extracted
  | document (d : Document)
  | skipped (warning : String)
  | unreadable

def extractFile (read? : String → Option String) (forced : Option Profile) (path : String) :
    Extracted :=
  let skipping (reason : String) : Extracted := .skipped ("skipping " ++ path ++ ": " ++ reason)
  match read? path with
  | none => .unreadable
  | some source =>
    let extracted := do
      let profile ← match forced with
        | some p => pure p
        | none => job.registry.forPath path
      job.extract profile path source
    match extracted with
    | .ok (.completed d) => .document d
    | .ok .cancelled => skipping "timed out"
    | .error e => skipping e.message

-- The documents of all files, or the first file that cannot be read.
def extractFiles (read? : String → Option String) (forced : Option Profile) :
    List String → Except String (List (String × Document))
  | [] => .ok []
  | path :: rest => do
    match job.extractFile read? forced path with
    | .unreadable => throw ("failed to read " ++ path)
    | .skipped _ => extractFiles read? forced rest
    | .document d => return (path, d) :: (← extractFiles read? forced rest)

def skipWarnings (read? : String → Option String) (forced : Option Profile)
    (paths : List String) : List String :=
  paths.filterMap fun path =>
    match job.extractFile read? forced path with
    | .skipped warning => some warning
    | _ => none

def outputPath (directory : String) (format : Render.Format) (path : String) : String :=
  Path.join directory (Path.outputName path ++ "." ++ format.extension)

-- Writes the documents one after the other. A later one replaces an earlier one of the same name.
def writeAll (directory : String) (format : Render.Format) (tree : Tree) :
    List (String × Document) → Tree × Option String
  | [] => (tree, none)
  | (path, d) :: rest =>
    let target := outputPath directory format path
    match tree.write? target (format.render d) with
    | some tree => writeAll directory format tree rest
    | none => (tree, some ("failed to write " ++ target))

def forced : Except String (Option Profile) :=
  match job.arguments.language with
  | none => .ok none
  | some name => ((job.registry.byName name).mapError (·.message)).map some

-- A file that cannot be taken apart is passed over with a warning. One that cannot be read ends the
-- run before anything is written.
def processFiles (directory : String) (format : Render.Format) (forced : Option Profile)
    (tree : Tree) (warnings paths : List String) : Exit :=
  let warnings := warnings ++ job.skipWarnings tree.read? forced paths
  match job.extractFiles tree.read? forced paths with
  | .error e => .failure tree warnings e
  | .ok documents =>
    match writeAll directory format tree documents with
    | (tree, some e) => .failure tree warnings e
    | (tree, none) => .success tree warnings ""

def runInto (directory : String) (tree : Tree) : Exit :=
  match job.format, job.forced with
  | .error e, _ => .failure tree [] e
  | .ok _, .error e => .failure tree [] e
  | .ok format, .ok forced =>
    match job.expand tree job.arguments.inputs with
    | (warnings, .error e) => .failure tree warnings e
    | (warnings, .ok paths) =>
      job.processFiles directory format forced tree warnings (sortPaths paths)

def runFiles (tree : Tree) : Exit :=
  match job.arguments.output with
  | none => .failure tree [] "--output is required when files are given"
  | some directory =>
    match tree.makeDirectory? directory with
    | none => .failure tree [] ("failed to create output directory: " ++ directory)
    | some tree => job.runInto directory tree

def run (tree : Tree) (stdin : ByteArray) : Exit :=
  if job.arguments.inputs.isEmpty then
    match job.document stdin with
    | .ok text => .success tree [] text
    | .error e => .failure tree [] e
  else
    job.runFiles tree

end Job

def loadRegistry (arguments : Arguments) (tree : Tree) : Except String Registry :=
  match arguments.config with
  | none => .ok .builtin
  | some path =>
    match (tree.read? path).map Registry.ofToml with
    | some (.ok r) => .ok r
    | _ => .error ("failed to load config: " ++ path)

def usage : String := String.join [
  "Extract documented entities, prototypes and symbols from source files\n\n",
  "Usage: protodoc [OPTIONS] [FILES]...\n\n",
  "Arguments:\n",
  "  [FILES]...  Input files, directories or glob patterns. If omitted, reads from stdin\n\n",
  "Options:\n",
  "  -o, --output <OUTPUT>          Output directory (required when files are given)\n",
  "  -l, --language <LANGUAGE>      Language to parse as. ",
  "Defaults to detection by extension, or c for stdin\n",
  "  -c, --config <CONFIG>          TOML file adding or replacing languages and entity kinds\n",
  "  -f, --format <FORMAT>          Output format: json (default), text [default: json]\n",
  "      --timeout-ms <TIMEOUT_MS>  Give up on a file after this many milliseconds\n",
  "  -v, --verbose                  Log progress to stderr\n",
  "  -h, --help                     Print help\n"]

def runIn (tree : Tree) (args : List String) (stdin : ByteArray) : Exit :=
  match Arguments.initial.parse none args with
  | .error .invalid => .misuse tree
  | .error .help => .success tree [] usage
  | .ok arguments =>
    match loadRegistry arguments tree with
    | .error e => .failure tree [] e
    | .ok registry =>
      -- No time passes: a limit of zero is reached at once, and any other one never.
      Job.run ⟨arguments, registry, fun _ _ => 0, Glob.paths?⟩ tree stdin

def run (args : List String) (working : Tree) (stdin : ByteArray) : Exit :=
  let exit := runIn working.around args stdin
  { exit with tree := exit.tree.working }

end SourceDocs.CommandLine

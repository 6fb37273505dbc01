import SourceDocs.CommandLine.Run

namespace SourceDocs.Program

-- The files below a directory. What cannot be looked into is left out.
partial def snapshot (directory : String) : IO Files.Tree := do
  let mut entries := []
  for entry in ← (← IO.FS.realPath directory).readDir do
    let path := directory ++ "/" ++ entry.fileName
    let tree ←
      try
        if ← entry.path.isDir then some <$> snapshot path
        else some <$> Files.Tree.file <$> IO.FS.readBinFile path
      catch _ => pure none
    if let some tree := tree then
      entries := (entry.fileName, tree) :: entries
  return .directory entries.reverse

partial def readAll (stream : IO.FS.Stream) (read : ByteArray) : IO ByteArray := do
  let chunk ← stream.read 65536
  if chunk.isEmpty then return read else readAll stream (read ++ chunk)

def store (before after : Files.Tree) : IO Unit := do
  for (path, content) in before.changes after do
    let names := path.splitOn "/"
    IO.FS.createDirAll ("/".intercalate ("." :: names.dropLast))
    IO.FS.writeBinFile path content

def usesStdin (args : List String) : Bool :=
  match CommandLine.Arguments.initial.parse none args with
  | .ok arguments => arguments.inputs.isEmpty
  | .error _ => false

end SourceDocs.Program

open SourceDocs in
def main (args : List String) : IO UInt32 := do
  let before ← Program.snapshot "."
  let stdin ←
    if Program.usesStdin args then Program.readAll (← IO.getStdin) .empty else pure .empty
  let exit := CommandLine.run args before stdin
  for warning in exit.warnings do
    IO.eprintln ("WARN " ++ warning)
  Program.store before exit.tree
  IO.print exit.stdout
  if let some e := exit.error then
    IO.eprintln ("Error: " ++ e)
  return exit.code.toUInt32

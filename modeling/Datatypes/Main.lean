import Datatypes.Command.Report

/-!
The program on the files of the working directory: they are loaded, the command is run on them,
and what it changed is written back. Paths do not lead out of that directory.
-/

namespace Datatypes.Program

partial def load (e : IO.FS.DirEntry) : IO (String × Node) := do
  if ← e.path.isDir then
    let entries ← (← e.path.readDir).mapM load
    return (e.fileName, .directory entries.toList)
  else
    return (e.fileName, .file (← IO.FS.readBinFile e.path))

partial def store (path : String) (old new : List (String × Node)) : IO Unit := do
  for (name, n) in new do
    let place := Path.join path name
    match n, old.lookup name with
    | .file content, some (.file before) =>
      if content.data != before.data then IO.FS.writeBinFile place content
    | .file content, _ => IO.FS.writeBinFile place content
    | .directory entries, some (.directory before) => store place before entries
    | .directory entries, _ =>
      IO.FS.createDirAll place
      store place [] entries

end Datatypes.Program

open Datatypes in
def main (args : List String) : IO UInt32 := do
  let entries ← (← (← IO.currentDir).readDir).mapM Program.load
  let outcome := Command.runArguments args ⟨entries.toList⟩
  Program.store "." entries.toList outcome.tree.entries
  (← IO.getStdout).putStr outcome.stdout
  (← IO.getStderr).putStr outcome.stderr
  return outcome.exit.toUInt32

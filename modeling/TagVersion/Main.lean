import TagVersion.FileTree.Archive
import TagVersion.Git.World

/-!
The program. It is given the files that it is to look at as an archive on its standard input, with
their paths from the root, and answers for the directory that it is started in. The version goes to
standard output; complaints and the log go to standard error.
-/

namespace TagVersion

/-- Reads a stream to its end. -/
partial def readAll (input : IO.FS.Stream) (content : ByteArray) : IO ByteArray := do
  let chunk ← input.read 65536
  if chunk.isEmpty then return content
  readAll input (content ++ chunk)

/-- The variables that are set. -/
def readEnvironment : IO Config.Environment := do
  return {
    file := ← IO.getEnv "GITVERSION_CONFIG"
    configHome := ← IO.getEnv "XDG_CONFIG_HOME"
    home := ← IO.getEnv "HOME"
    log := ← IO.getEnv "GITVERSION_LOG" }

/-- Prints what a run came to. -/
def tell (report : CommandLine.Report) : IO UInt32 := do
  for line in report.log do
    IO.eprintln s!"{line.level.name} {line.target}"
  IO.eprint report.ending.complaint
  IO.print report.ending.output
  return report.ending.exitCode.toUInt32

end TagVersion

open TagVersion in
def main (words : List String) : IO UInt32 := do
  let archive ← readAll (← IO.getStdin) ByteArray.empty
  let tree := FileTree.ofArchive archive.data.toList
  let directory := (← IO.getEnv "PWD").getD "/"
  let place := (tree.resolve? [] directory).getD (Path.segments directory)
  tell (CommandLine.run (Git.world tree place (← readEnvironment)) words)

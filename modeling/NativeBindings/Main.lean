import NativeBindings.CommandLine.Run

/-!
# The program

The program takes its arguments from the command line. What they make it look at is loaded from the
disk into a tree, first the configuration and then the directories of the targets; the run works on
the tree, and the files that it changed are written.
-/

namespace NativeBindings.Program

/-- What lies at a path on the disk; a relative path starts at the current directory. -/
def onDisk (path : Path) : IO.FS.DirEntry := ⟨".", path.text⟩

/-- Notes in a tree what lies at a path on the disk: a directory as such, and a file with its
bytes. -/
def note (tree : FileTree) (path : Path) : IO FileTree := do
  let place := (onDisk path).path
  if ← place.isDir then return (tree.createDirectories path).1
  if ← place.pathExists then
    match tree.write path (← IO.FS.readBinFile place).toList with
    | .ok tree => return tree
    | .error e => throw (IO.userError (path.text ++ ": " ++ e.message))
  return tree

/-- Loads what lies at a path and on the way to it, and what a directory at its end holds. -/
def load (tree : FileTree) (path : Path) : IO FileTree := do
  let tree ← path.ancestors.reverse.foldlM note tree
  let place := (onDisk path).path
  if ← place.isDir then
    (← place.readDir).foldlM (fun tree entry => note tree (path.join ⟨entry.fileName⟩)) tree
  else return tree

/-- Writes a file and the directories that it lies in. -/
def store (path : Path) (content : List UInt8) : IO Unit := do
  if let some parent := path.parent? then IO.FS.createDirAll parent.text
  IO.FS.writeBinFile path.text ⟨content.toArray⟩

/-- Prints a line of a report. -/
def printLine : CommandLine.Line → IO Unit
  | .text s => IO.eprintln s
  | .fatal e => do
    IO.eprintln (e.code ++ ": " ++ e.message)
    IO.eprintln ("  help: " ++ e.help)

end NativeBindings.Program

open NativeBindings in
/-- Runs the program with the given words and gives its exit code. -/
def main (words : List String) : IO UInt32 := do
  let cwd : Path := ⟨(← IO.currentDir).toString⟩
  let tree := (({} : FileTree).createDirectories cwd).1
  let start := { tree with cwd := (tree.find cwd).toOption.elim [] (·.1) }
  let configured ← (CommandLine.pathsOf start words).foldlM Program.load start
  let tree ← (CommandLine.pathsOf configured words).foldlM Program.load configured
  let (new, output) := CommandLine.run tree words
  for (path, content) in FileTree.changedFiles tree new do
    Program.store path content
  IO.print output.stdout
  output.stderr.forM Program.printLine
  return output.exitCode.toUInt32

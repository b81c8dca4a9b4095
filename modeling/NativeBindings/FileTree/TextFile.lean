import NativeBindings.FileTree.Basic
import NativeBindings.Text.Utf8

/-!
# Text files

Texts are read from and written to files. A failure tells which step failed, on which path, and why.
-/

namespace NativeBindings

/-- A failed step on a file or directory. -/
inductive FileError
  /-- A file cannot be read. -/
  | read (path : Path) (cause : OsError)
  /-- A directory cannot be created. -/
  | createDirectory (path : Path) (cause : OsError)
  /-- A file cannot be written. -/
  | write (path : Path) (cause : OsError)
  deriving DecidableEq, Repr

/-- The text of an error: the step, the path and the cause. -/
def FileError.message : FileError → String
  | .read path cause => "failed to read file: " ++ path.text ++ ": " ++ cause.message
  | .createDirectory path cause =>
    "failed to create directory: " ++ path.text ++ ": " ++ cause.message
  | .write path cause => "failed to write file: " ++ path.text ++ ": " ++ cause.message

namespace FileTree

/-- The text of a source file, invalid parts replaced. -/
def readSource (t : FileTree) (p : Path) : Except FileError Text :=
  match t.read p with
  | .ok bytes => .ok (Utf8.decodeLossy bytes)
  | .error cause => .error (.read p cause)

/-- The tree with the directory of a path, unless something is there, and why that fails. -/
def ensureDirectory (t : FileTree) (p : Path) : FileTree × Option FileError :=
  if t.pathExists p then (t, none)
  else
    let (t, error) := t.createDirectories p
    (t, error.map (.createDirectory p))

/-- The tree with a text in a file, whose directories are created where they do not exist, and why
that fails. Directories that have been created stay. -/
def writeText (t : FileTree) (p : Path) (text : String) : FileTree × Option FileError :=
  let ready :=
    match p.parent? with
    | some parent => t.ensureDirectory parent
    | none => (t, none)
  match ready with
  | (t, some e) => (t, some e)
  | (t, none) =>
    match t.write p (Utf8.encode text.toList) with
    | .ok t => (t, none)
    | .error cause => (t, some (.write p cause))

end FileTree

end NativeBindings

import NativeBindings.Config.Lines
import NativeBindings.Config.OfToml
import NativeBindings.FileTree.TextFile

/-!
# Configuration files

A configuration is read from a file. The name of the file tells its form: one name is kept for
lines, and any other file is a TOML document. Relative directories are taken from the directory of
the file.
-/

namespace NativeBindings.Config

/-- Why the text of a file cannot be had. -/
inductive ReadFailure
  /-- The operation on the path is refused. -/
  | os (cause : OsError)
  /-- The bytes are no text. -/
  | notText
  deriving DecidableEq, Repr

/-- The text of a failure. -/
def ReadFailure.message : ReadFailure → String
  | .os cause => cause.message
  | .notText => "stream did not contain valid UTF-8"

/-- Why a file gives no configuration. -/
inductive LoadError
  /-- It cannot be read. -/
  | read (path : Path) (cause : ReadFailure)
  /-- It is no TOML document, or not one of a configuration. -/
  | toml (path : Path)
  /-- Its lines are no configuration. -/
  | lines (path : Path) (cause : LinesError)
  deriving DecidableEq, Repr

/-- The text of an error. -/
def LoadError.message : LoadError → String
  | .read path cause => "failed to read config file: " ++ path.text ++ ": " ++ cause.message
  | .toml path => "failed to parse config file: " ++ path.text
  | .lines path cause => "failed to parse config file: " ++ path.text ++ ": " ++ cause.message

/-- The name of a configuration file in TOML. -/
def tomlName : String := "methodgen.toml"

/-- The name of a configuration file in lines. -/
def linesName : String := "methodgen.cfg.txt"

/-- The text of a configuration file. -/
def readText (tree : FileTree) (path : Path) : Except LoadError Text :=
  match tree.read path with
  | .error cause => .error (.read path (.os cause))
  | .ok bytes =>
    match Utf8.decode? bytes with
    | some text => .ok text
    | none => .error (.read path .notText)

/-- The configuration in a TOML file. -/
def loadToml (tree : FileTree) (path : Path) : Except LoadError Config := do
  let text ← readText tree path
  match ofToml? text with
  | none => throw (.toml path)
  | some c =>
    match path.parent? with
    | some base => return { c with targets := c.targets.map (·.rebase base) }
    | none => return c

/-- The configuration in a file of either form. -/
def load (tree : FileTree) (path : Path) : Except LoadError Config :=
  if path.fileName? = some linesName then do
    let text ← readText tree path
    match ofLines text (path.parent?.getD ⟨"."⟩) with
    | .ok c => return c
    | .error cause => throw (.lines path cause)
  else loadToml tree path

/-- The configuration file in a directory; one in TOML goes first. -/
def find? (tree : FileTree) (dir : Path) : Option Path :=
  ([tomlName, linesName].map fun name => dir.join ⟨name⟩).find? tree.isFile

end NativeBindings.Config

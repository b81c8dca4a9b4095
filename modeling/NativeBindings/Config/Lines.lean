import NativeBindings.Config.Basic
import NativeBindings.Text.Lines
import NativeBindings.Text.Search

/-!
# Configurations in lines

The older form of a configuration is a list of lines for one target: the source directory, the
output directory, and then lines that import a namespace or define a symbol. Blanks around a line
do not matter, and other lines are left out.
-/

namespace NativeBindings.Config

/-- Why lines are no configuration. -/
inductive LinesError
  /-- There are fewer than two lines. -/
  | missingDirectories
  /-- One of the first two lines is blank. -/
  | emptyDirectory
  deriving DecidableEq, Repr

/-- The text of an error. -/
def LinesError.message : LinesError → String
  | .missingDirectories =>
    "expected a source directory and an output directory on the first two lines"
  | .emptyDirectory => "source and output directories must not be empty"

/-- A line behind the first two. -/
inductive Entry
  /-- It imports a namespace, with the whole line as written. -/
  | using_ (line : String)
  /-- It defines a symbol. -/
  | define (name : String)
  deriving DecidableEq, Repr

/-- What a trimmed line says. -/
def Entry.ofLine? (line : Text) : Option Entry :=
  match "using".toList.isPrefixOf? line, "define".toList.isPrefixOf? line with
  | some _, _ => some (.using_ (String.ofList line))
  | none, some rest =>
    match Text.trim rest with
    | [] => none
    | name => some (.define (String.ofList name))
  | none, none => none

/-- The imports among lines, as written. -/
def usingsOf (entries : List Entry) : List String :=
  entries.filterMap fun
    | .using_ line => some line
    | .define _ => none

/-- The symbols among lines. -/
def definesOf (entries : List Entry) : List String :=
  entries.filterMap fun
    | .define name => some name
    | .using_ _ => none

/-- The configuration that lines denote, with relative directories taken from `base`. A line that
imports a namespace takes the place of the namespaces of Rhino. -/
def ofLines (text : Text) (base : Path) : Except LinesError Config :=
  match (Text.lines text).map Text.trim with
  | source :: output :: rest =>
    if source.isEmpty || output.isEmpty then .error .emptyDirectory
    else
      let entries := rest.filterMap Entry.ofLine?
      let target : Target :=
        { sourceDir := ⟨String.ofList source⟩
          outputDir := ⟨String.ofList output⟩
          defines := definesOf entries
          usings := usingsOf entries }
      .ok {
        targets := [target.rebase base]
        mapping := { rhinoUsings := (usingsOf entries).isEmpty } }
  | _ => .error .missingDirectories

end NativeBindings.Config

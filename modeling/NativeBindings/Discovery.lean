import NativeBindings.Config.Basic
import NativeBindings.FileTree.Basic

/-!
# Finding a project

Where nothing is configured, a project is looked for in a directory and its parents. It is known by
the name of its directory and by the directories in it.
-/

namespace NativeBindings.Discovery

/-- The directories of a project. -/
structure Project where
  /-- The directory of the native sources. -/
  native : Path
  /-- The directory of the generated files. -/
  managed : Path
  deriving DecidableEq, Repr

/-- The name of a project's directory. -/
def projectName : String := "RhinoCommon"

/-- The native sources of a project, core or extension. -/
inductive Part
  /-- The core. -/
  | core
  /-- The extension. -/
  | extension
  deriving DecidableEq, Repr

/-- The name of the directory of native sources. -/
def Part.directory : Part → String
  | .core => "c"
  | .extension => "c_rdk"

/-- Whether two names agree but for the case of ASCII letters. -/
def sameName (a b : String) : Bool := a.toList.map Char.toLower == b.toList.map Char.toLower

/-- The project in a directory: the directory has the name of a project, and it holds the
directories of the native sources and of the generated files. -/
def projectIn? (tree : FileTree) (part : Part) (dir : Path) : Option Project :=
  let native := dir.join ⟨part.directory⟩
  let managed := dir.join ⟨"dotnet"⟩
  if dir.fileName?.any (sameName projectName) && tree.isDirectory native &&
      tree.isDirectory managed then some { native, managed }
  else none

/-- The project in the nearest of a directory and its parents that holds one. -/
def project? (tree : FileTree) (part : Part) (start : Path) : Option Project :=
  start.ancestors.findSome? (projectIn? tree part)

/-- The directories that decide whether a directory and its parents hold a project. -/
def candidates (start : Path) : List Path :=
  let named := start.ancestors.filter fun dir => dir.fileName?.any (sameName projectName)
  named.flatMap fun dir =>
    [Part.core.directory, Part.extension.directory, "dotnet"].map fun name => dir.join ⟨name⟩

/-- The library of an extension. -/
def extensionLibrary : String := "librdk"

/-- The name of the file that is generated for an extension. -/
def extensionFile : String := "AutoNativeMethodsRdk.cs"

/-- The target of a core. -/
def Project.coreTarget (p : Project) : Target := { sourceDir := p.native, outputDir := p.managed }

/-- The target of an extension. -/
def Project.extensionTarget (p : Project) : Target where
  sourceDir := p.native
  outputDir := p.managed
  outputFile := extensionFile
  library := extensionLibrary

/-- The configuration of the project around a directory: a target for its core, and one for its
extension where there is one. The libraries are constants of the project's import class. -/
def config? (tree : FileTree) (start : Path) : Option Config := do
  let core ← project? tree .core start
  let extension := (project? tree .extension start).map Project.extensionTarget
  return {
    targets := core.coreTarget :: extension.toList
    mapping := { importClass := some "Import" } }

end NativeBindings.Discovery

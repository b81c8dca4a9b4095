import NativeBindings.CommandLine.Arguments
import NativeBindings.CommandLine.Report
import NativeBindings.Config.File
import NativeBindings.Discovery

/-!
# Runs of the program

A run takes a file tree and the words of the command line. It gives the tree with the generated
files, what is printed, and the exit code: zero for success, one for failure and two for words that
cannot be understood.
-/

namespace NativeBindings.CommandLine

/-- Why there is no configuration to run with. -/
inductive Problem
  /-- The configuration file cannot be used. -/
  | config (cause : Config.LoadError)
  /-- Nothing is configured, and no project is found. -/
  | noProject
  /-- The configuration has no targets. -/
  | noTargets
  deriving DecidableEq, Repr

/-- The text of a problem. -/
def Problem.message : Problem → String
  | .config cause => cause.message
  | .noProject =>
    "unable to locate project directories; pass SOURCE_DIR and OUTPUT_DIR or a --config file"
  | .noTargets => "no targets configured"

/-- The configuration that the arguments start from: the one in the given file, or in the file in
the current directory. Without a file, it is the default one when a source directory is given, and
otherwise that of the project around the current directory. -/
def startConfig (tree : FileTree) (a : Arguments) : Except Problem Config :=
  let cwd := FileTree.pathTo tree.cwd
  match a.config.or (Config.find? tree cwd) with
  | some path =>
    match Config.load tree path with
    | .ok c => .ok c
    | .error cause => .error (.config cause)
  | none =>
    if a.sourceDir.isSome then .ok {}
    else
      match Discovery.config? tree cwd with
      | some c => .ok c
      | none => .error .noProject

/-- The targets, or the one in the directories of the arguments. -/
def chooseTargets (cwd : Path) (a : Arguments) (targets : List Target) : List Target :=
  match a.sourceDir, a.outputDir with
  | some source, some output => [{ sourceDir := cwd.join source, outputDir := cwd.join output }]
  | _, _ => targets

/-- The first target with the library and the file of the arguments, and behind it the second
target of the arguments, or else the other targets. -/
def adjustTargets (cwd : Path) (a : Arguments) (first : Target) (others : List Target) :
    List Target :=
  let others :=
    match a.extSourceDir with
    | none => others
    | some source => [{
        sourceDir := cwd.join source
        outputDir := first.outputDir
        outputFile := a.extOutputFile.getD Discovery.extensionFile
        library := a.extLibrary.getD Discovery.extensionLibrary }]
  { first with
    library := a.library.getD first.library
    outputFile := a.outputFile.getD first.outputFile } :: others

/-- A target with the namespace and the symbols of the arguments. -/
def adjustTarget (a : Arguments) (t : Target) : Target :=
  { t with enclosing := a.enclosing.or t.enclosing, defines := t.defines ++ a.defines }

/-- The configuration that the arguments ask for. -/
def configOf (tree : FileTree) (a : Arguments) : Except Problem Config := do
  let cwd := FileTree.pathTo tree.cwd
  let c ← startConfig tree a
  match chooseTargets cwd a c.targets with
  | [] => throw .noTargets
  | first :: others =>
    return { c with targets := (adjustTargets cwd a first others).map (adjustTarget a) }

/-- The paths that a run looks at, as far as a tree tells: those that lead to the configuration, and
those of the targets that are configured. -/
def pathsOf (tree : FileTree) (words : List String) : List Path :=
  match Request.read words with
  | .error _ => []
  | .ok r =>
    let cwd := FileTree.pathTo tree.cwd
    let targets :=
      match configOf tree r.arguments with
      | .ok c => c.targets
      | .error _ => []
    [Config.tomlName, Config.linesName].map (cwd.join ⟨·⟩) ++ r.arguments.config.toList ++
      Discovery.candidates cwd ++ targets.flatMap fun t => [t.sourceDir, t.outputDir, t.outputPath]

/-- What a run prints, and how it ends. -/
structure Output where
  /-- The exit code. -/
  exitCode : UInt8
  /-- The text for the standard output. -/
  stdout : String := ""
  /-- The lines for the standard error output. -/
  stderr : List Line := []
  deriving DecidableEq, Repr

/-- The name of the program and its version. -/
def versionText : String := "methodgen 0.1.0\n"

/-- How the program is used. -/
def usage : String :=
  "usage: methodgen [generate | check] [OPTIONS] [SOURCE_DIR OUTPUT_DIR]"

/-- The run of a request. -/
def runRequest (tree : FileTree) (r : Request) : FileTree × Output :=
  match configOf tree r.arguments with
  | .error problem =>
    (tree, { exitCode := 1, stderr := [.text ("error: " ++ problem.message)] })
  | .ok c =>
    let (tree, outcomes) := c.generateAll r.checkOnly tree
    let exitCode := if outcomes.all (·.success) then 0 else 1
    if Flag.json ∈ r.arguments.flags then
      (tree, { exitCode, stdout := (runJson r.checkOnly outcomes).text ++ "\n" })
    else (tree, { exitCode, stderr := outcomes.flatMap (outcomeLines r.checkOnly) })

/-- The run of the program with the given words. -/
def run (tree : FileTree) (words : List String) : FileTree × Output :=
  match Request.read words with
  | .ok r => runRequest tree r
  | .error .misuse => (tree, { exitCode := 2, stderr := [.text usage] })
  | .error .help => (tree, { exitCode := 0, stdout := usage ++ "\n" })
  | .error .version => (tree, { exitCode := 0, stdout := versionText })

end NativeBindings.CommandLine

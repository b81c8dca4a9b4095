import NativeBindings.Config.Basic
import NativeBindings.FileTree.Sources
import NativeBindings.FileTree.TextFile
import NativeBindings.Fingerprint

/-!
# Generating files

The file of a target is generated from the sources in its directory. It is written as a whole, and
only when no fatal error has occurred. Targets do not depend on each other.
-/

namespace NativeBindings

/-- What becomes of a target. -/
structure Outcome where
  /-- The target. -/
  target : Target
  /-- The pass over its sources. -/
  pass : Pass
  /-- The number of sources that have been scanned. -/
  filesScanned : Nat := 0
  /-- The fingerprint of its inputs, once they have been read. -/
  fingerprint : Option String := none
  /-- The text of the generated file, when there is no fatal error. -/
  text : Option String := none
  /-- Whether the generated file has been written. -/
  written : Bool := false
  deriving DecidableEq

namespace Outcome

/-- A target succeeds when no fatal error has occurred. -/
def success (o : Outcome) : Bool := !o.pass.failed

/-- The number of declarations in the generated file; none when there is no file. -/
def functionsEmitted (o : Outcome) : Nat := if o.success then o.pass.catalogue.entries.length else 0

end Outcome

namespace Target

/-- The sources of a target with their texts, in order. -/
def readSources (tree : FileTree) (target : Target) : Except FatalError (List (Path × Text)) :=
  if tree.isDirectory target.sourceDir then
    let texts := (tree.sources target.sourceDir).mapM fun file => do
      return (file, ← tree.readSource file)
    match texts with
    | .ok sources => .ok sources
    | .error e => .error (.io target.sourceDir e.message)
  else .error (.sourceDirectory target.sourceDir)

/-- The fingerprint of a target with the given sources. -/
def fingerprint (target : Target) (sources : List (Path × Text)) : String :=
  Fingerprint.Inputs.fingerprint {
    library := target.library
    symbols := target.symbols
    files := sources.map fun (file, text) => (file.displayName, String.ofList text) }

end Target

namespace Config

/-- What becomes of a target with the given sources, before its file is written. -/
def scanTarget (c : Config) (target : Target) (sources : List (Path × Text)) : Outcome :=
  let pass := ({} : Pass).process (c.settings target) sources
  let fingerprint := target.fingerprint sources
  let options := { c.emitOptions target with fingerprint := some fingerprint }
  { target
    pass
    filesScanned := sources.length
    fingerprint := some fingerprint
    text := if pass.failed then none else some (Emission.render options pass.catalogue) }

/-- The tree with the file of a target, unless it is only checked, and what becomes of the
target. -/
def generate (c : Config) (checkOnly : Bool) (tree : FileTree) (target : Target) :
    FileTree × Outcome :=
  match target.readSources tree with
  | .error e => (tree, { target, pass := ({} : Pass).fail e })
  | .ok sources =>
    let outcome := c.scanTarget target sources
    match outcome.text with
    | none => (tree, outcome)
    | some text =>
      -- A check does everything but write.
      if checkOnly then (tree, outcome)
      else
        match tree.writeText target.outputPath text with
        | (tree, none) => (tree, { outcome with written := true })
        | (tree, some e) =>
          -- A file that cannot be written fails the target like any other fatal error.
          let pass := outcome.pass.fail (.io target.outputPath e.message)
          (tree, { outcome with pass, text := none })

/-- The tree with the files of targets, and what becomes of each target, in order. -/
def generateTargets (c : Config) (checkOnly : Bool) (tree : FileTree) :
    List Target → FileTree × List Outcome
  | [] => (tree, [])
  | target :: targets =>
    let (tree, outcome) := c.generate checkOnly tree target
    let (tree, outcomes) := c.generateTargets checkOnly tree targets
    (tree, outcome :: outcomes)

/-- The tree with the files of all targets, and what becomes of each. -/
def generateAll (c : Config) (checkOnly : Bool) (tree : FileTree) : FileTree × List Outcome :=
  c.generateTargets checkOnly tree c.targets

end Config

end NativeBindings

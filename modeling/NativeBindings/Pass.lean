import NativeBindings.FatalError
import NativeBindings.Marshal.Mapper
import NativeBindings.Scanner

/-!
# Passes over sources

A pass turns the sources of one target into a catalogue. Each source is filtered, scanned and mapped
by itself; then the results are merged in order. A source whose sections do not fit together gives
no signatures and fails the pass, and a conflict ends the merge.
-/

namespace NativeBindings

/-- What a pass depends on. -/
structure Settings where
  /-- The symbols that are defined. -/
  symbols : SymbolSet
  /-- How declarations are found. -/
  scan : ScanPolicy
  /-- How types are mapped. -/
  mapper : Mapper
  deriving DecidableEq

/-- What one source gives. -/
structure FileScan where
  /-- The file. -/
  file : Path
  /-- Its signatures, in order. -/
  signatures : List Signature
  /-- Its warnings: those of conditionals, of declarations and of types, each in order. -/
  warnings : List Diagnostic
  /-- Why its sections do not fit together. -/
  error : Option Conditional.NestingError
  deriving DecidableEq

/-- What one source gives. -/
def scanSource (settings : Settings) (file : Path) (text : Text) : FileScan :=
  match Conditional.filter settings.symbols text with
  | .error e => ⟨file, [], [], some e⟩
  | .ok filtered =>
    let found := Scanner.scan settings.scan file filtered.live
    let declarations := Scanner.declarations found
    { file
      signatures := declarations.map settings.mapper.signature
      warnings := filtered.undecided.map (·.diagnostic file) ++ Scanner.warnings file found ++
        declarations.flatMap settings.mapper.diagnostics
      error := none }

/-- What a pass has found so far. -/
structure Pass where
  /-- The diagnostics, in order. -/
  diagnostics : List Diagnostic := []
  /-- The signatures. -/
  catalogue : Catalogue := .empty
  /-- The fatal errors, in order. -/
  fatal : List FatalError := []
  deriving DecidableEq

namespace Pass

/-- A pass has failed when it has met a fatal error. -/
def failed (p : Pass) : Bool := !p.fatal.isEmpty

/-- The pass with further diagnostics. -/
def report (p : Pass) (ds : List Diagnostic) : Pass := { p with diagnostics := p.diagnostics ++ ds }

/-- The pass with a fatal error, which is also a diagnostic. -/
def fail (p : Pass) (e : FatalError) : Pass :=
  { p with diagnostics := p.diagnostics ++ [e.diagnostic], fatal := p.fatal ++ [e] }

/-- The pass with one more signature and what became of it; a conflict fails the pass. -/
def add (p : Pass) (s : Signature) : Pass × Option Insertion :=
  let (result, catalogue) := p.catalogue.put s
  let p := { p with catalogue }
  match result with
  | .ok insertion => (p, some insertion)
  | .error conflict => (p.fail (.conflict conflict), none)

/-- A conflict leaves the catalogue of the pass as it is. -/
theorem add_eq (p : Pass) (s : Signature) : p.add s =
    match p.catalogue.add s with
    | .ok (insertion, catalogue) => ({ p with catalogue }, some insertion)
    | .error conflict => (p.fail (.conflict conflict), none) := by
  unfold add
  rw [Catalogue.add_eq, Catalogue.put_eq]
  cases p.catalogue.get? s.name with
  | none => rfl
  | some first => cases hsame : first.sameBinding s <;> simp only [hsame] <;> rfl

/-- The pass with further signatures, up to the first conflict, and whether there was none. -/
def addAll (p : Pass) : List Signature → Pass × Bool
  | [] => (p, true)
  | s :: ss =>
    match p.add s with
    | (p, some _) => p.addAll ss
    | (p, none) => (p, false)

/-- The pass with the results of further sources, up to the first conflict. -/
def merge (p : Pass) : List FileScan → Pass
  | [] => p
  | scan :: scans =>
    let p := p.report scan.warnings
    match scan.error with
    -- A source that fails is passed over, and later ones are still merged.
    | some e => (p.fail (.unbalanced scan.file e)).merge scans
    | none =>
      match p.addAll scan.signatures with
      | (p, true) => p.merge scans
      -- A conflict leaves the results of all later sources out.
      | (p, false) => p

/-- The pass over further sources. -/
def process (settings : Settings) (p : Pass) (sources : List (Path × Text)) : Pass :=
  p.merge (sources.map fun (file, text) => scanSource settings file text)

/-- The diagnostics that are errors. -/
def errors (p : Pass) : List Diagnostic := p.diagnostics.filter (·.isError)

/-- The diagnostics that are no errors. -/
def warnings (p : Pass) : List Diagnostic := p.diagnostics.filter (!·.isError)

end Pass

end NativeBindings

import NativeBindings.Emission.File
import NativeBindings.Marshal.Mapper
import NativeBindings.Pass

/-!
# Configurations

A configuration names the targets, and it says how declarations are found and how types are mapped
for all of them. A target is a source directory and the file that is generated from it.
-/

namespace NativeBindings

/-- A source directory and the file that is generated from it. -/
structure Target where
  /-- The directory of the sources. -/
  sourceDir : Path := ⟨"."⟩
  /-- The directory of the generated file. -/
  outputDir : Path := ⟨"."⟩
  /-- The name of the generated file. -/
  outputFile : String := "AutoNativeMethods.cs"
  /-- The library that the declarations link to. -/
  library : String := "lib"
  /-- The namespace around the generated class. -/
  enclosing : Option String := none
  /-- The symbols that are defined, as written. -/
  defines : List String := []
  /-- Further namespaces to import. -/
  usings : List String := []
  deriving DecidableEq, Repr

namespace Target

/-- The generated file. -/
def outputPath (t : Target) : Path := t.outputDir.join ⟨t.outputFile⟩

/-- The symbols that are defined. -/
def symbols (t : Target) : SymbolSet := .ofList t.defines

/-- The target as seen from a base directory: its directories, where they are relative, are taken
from there. -/
def rebase (base : Path) (t : Target) : Target :=
  { t with sourceDir := base.join t.sourceDir, outputDir := base.join t.outputDir }

end Target

namespace Config

/-- How declarations are found, for all targets. -/
structure Scan where
  /-- The words that mark an exported function. -/
  markers : List String := ({} : ScanPolicy).markers
  /-- The number of lines within which a declaration has to end. -/
  lookahead : Nat := ({} : ScanPolicy).lookahead
  /-- The calling convention of all functions. -/
  convention : Convention := .cdecl
  deriving DecidableEq, Repr

/-- How types are mapped and what the generated files say, for all targets. -/
structure Mapping where
  /-- The name of the generated class. -/
  className : String := "UnsafeNativeMethods"
  /-- The class that holds the names of libraries as constants. -/
  importClass : Option String := none
  /-- Whether the namespaces of Rhino are imported. -/
  rhinoUsings : Bool := true
  /-- The tables of the mapper. -/
  policy : MappingPolicy := .default
  deriving DecidableEq

end Config

/-- The targets and what is common to them. -/
structure Config where
  /-- The targets, in order. -/
  targets : List Target := []
  /-- How declarations are found. -/
  scan : Config.Scan := {}
  /-- How types are mapped. -/
  mapping : Config.Mapping := {}
  deriving DecidableEq

namespace Config

/-- The namespaces of Rhino. -/
def rhinoNamespaces : List String := ["Rhino", "Rhino.Geometry"]

/-- How declarations are found: the tag of arrays stays in the code. -/
def scanPolicy (c : Config) : ScanPolicy where
  markers := c.scan.markers
  lookahead := c.scan.lookahead
  tags := [c.mapping.policy.arrayTag]

/-- What the generated file of a target says besides its declarations, without a fingerprint. -/
def emitOptions (c : Config) (t : Target) : Emission.Options where
  library := t.library
  enclosing := t.enclosing
  className := c.mapping.className
  importClass := c.mapping.importClass
  usings := (if c.mapping.rhinoUsings then rhinoNamespaces else []) ++ t.usings

/-- What the pass over the sources of a target depends on. -/
def settings (c : Config) (t : Target) : Settings where
  symbols := t.symbols
  scan := c.scanPolicy
  mapper := ⟨c.mapping.policy, c.scan.convention⟩

end Config

end NativeBindings

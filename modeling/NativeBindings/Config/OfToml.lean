import NativeBindings.Config.Basic
import NativeBindings.Toml.Document

/-!
# Configurations in TOML

The tables of a document become a configuration. A key that is absent has its default, and a key
that means nothing is left out. A value of the wrong type is refused.
-/

namespace NativeBindings.Config

open Toml (Value Entries)

/-! ## Reading values -/

/-- The key under which a date counts as a table. -/
def dateKey : String := "$__toml_private_datetime"

/-- The entries of a value that counts as a table: a date has its text under a key of its own. -/
def entries? : Value → Option Entries
  | .table _ es => some es
  | .datetime text => some [(dateKey, .string text)]
  | _ => none

/-- The parts of a value that counts as a record: those of a table by key, and those of an array by
position. -/
def member? (v : Value) : Option (Nat → String → Option Value) :=
  match v with
  | .array _ elements => some fun i _ => elements[i]?
  | v => (entries? v).map fun es _ key => es.lookup key

/-- A string. -/
def string? : Value → Option String
  | .string s => some s
  | _ => none

/-- A truth value. -/
def boolean? : Value → Option Bool
  | .boolean b => some b
  | _ => none

/-- An integer that is not negative. -/
def natural? : Value → Option Nat
  | .integer n => if 0 ≤ n then some n.toNat else none
  | _ => none

/-- An array with elements of one type. -/
def list? {α : Type} (element? : Value → Option α) : Value → Option (List α)
  | .array _ elements => elements.mapM element?
  | _ => none

/-- A table with values of one type. -/
def map? {α : Type} (value? : Value → Option α) (v : Value) : Option (List (String × α)) := do
  (← entries? v).mapM fun (key, v) => return (key, ← value? v)

/-- One of several names: a string, or a table with the name as its only key and nothing under
it. -/
def name? {α : Type} (ofName? : String → Option α) (isNothing : Value → Bool) : Value → Option α
  | .string s => ofName? s
  | .table _ [(key, v)] => if isNothing v then ofName? key else none
  | _ => none

/-- An empty table. -/
def isEmptyTable : Value → Bool
  | .table _ [] => true
  | _ => false

/-- An empty table or array. -/
def isEmpty : Value → Bool
  | .table _ [] | .array _ [] => true
  | _ => false

/-- A part that may be absent. -/
def orDefault {α : Type} (default : α) (read? : Value → Option α) : Option Value → Option α
  | none => some default
  | some v => read? v

/-! ## The records -/

/-- A target. -/
def target? (v : Value) : Option Target := do
  let member ← member? v
  let d : Target := {}
  return {
    sourceDir := ← orDefault d.sourceDir (fun v => (string? v).map (⟨·⟩)) (member 0 "source_dir")
    outputDir := ← orDefault d.outputDir (fun v => (string? v).map (⟨·⟩)) (member 1 "output_dir")
    outputFile := ← orDefault d.outputFile string? (member 2 "output_file")
    library := ← orDefault d.library string? (member 3 "library")
    enclosing := ← orDefault none (fun v => (string? v).map some) (member 4 "namespace")
    defines := ← orDefault [] (list? string?) (member 5 "defines")
    usings := ← orDefault [] (list? string?) (member 6 "usings") }

/-- How declarations are found. -/
def scan? (v : Value) : Option Scan := do
  let member ← member? v
  let d : Scan := {}
  return {
    markers := ← orDefault d.markers (list? string?) (member 0 "markers")
    lookahead := ← orDefault d.lookahead natural? (member 1 "lookahead")
    convention := ← orDefault d.convention (name? Convention.ofName? isEmpty)
      (member 2 "convention") }

/-- The tables of the mapper, among the entries of the mapping. -/
def policy? (es : Entries) : Option MappingPolicy := do
  let d := MappingPolicy.default
  let names := list? string?
  let encoding := name? Encoding.ofName? isEmptyTable
  return {
    structPrefixes := ← orDefault d.structPrefixes names (es.lookup "struct_prefixes")
    valueStructs := ← orDefault d.valueStructs (map? string?) (es.lookup "value_structs")
    typedefs := ← orDefault d.typedefs (map? string?) (es.lookup "typedefs")
    handles := ← orDefault d.handles (fun v => (names v).map .ofList) (es.lookup "handles")
    enums := ← orDefault d.enums (fun v => (names v).map .ofList) (es.lookup "enums")
    strings := ← orDefault d.strings (map? encoding) (es.lookup "strings")
    outBuffer := ← orDefault d.outBuffer (name? CapacitySide.ofName? isEmptyTable)
      (es.lookup "out_buffer")
    arrayTag := ← orDefault d.arrayTag string? (es.lookup "array_annotation") }

/-- How types are mapped. -/
def mapping? (v : Value) : Option Mapping := do
  let es ← entries? v
  let d : Mapping := {}
  return {
    className := ← orDefault d.className string? (es.lookup "class_name")
    importClass := ← orDefault none (fun v => (string? v).map some) (es.lookup "import_class")
    rhinoUsings := ← orDefault d.rhinoUsings boolean? (es.lookup "include_rhino_declarations")
    policy := ← policy? es }

/-- The configuration that a document denotes. -/
def ofEntries? (es : Entries) : Option Config := do
  return {
    targets := ← orDefault [] (list? target?) (es.lookup "target")
    scan := ← orDefault {} scan? (es.lookup "scan")
    mapping := ← orDefault {} mapping? (es.lookup "mapping") }

/-- The configuration that the text of a document denotes. -/
def ofToml? (text : Text) : Option Config := do ofEntries? (← Toml.parse? text)

end NativeBindings.Config

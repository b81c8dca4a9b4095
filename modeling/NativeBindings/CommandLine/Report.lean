import NativeBindings.CommandLine.Json
import NativeBindings.Generation

/-!
# Reports

A run is reported to a person line by line, or to a program as one JSON value.
-/

namespace NativeBindings.CommandLine

/-! ## For a person -/

/-- A line of a report. -/
inductive Line
  /-- A text. -/
  | text (s : String)
  /-- The message of a fatal error. -/
  | fatal (e : FatalError)
  deriving DecidableEq, Repr

/-- The lines about a fatal error and its diagnostic. -/
def fatalLines (e : FatalError) (d : Diagnostic) : List Line :=
  .fatal e :: (d.place?.toList.map ("  --> " ++ ·) ++ d.context.map ("  = " ++ ·)).map .text

/-- The line that tells how a target ended. -/
def lastLine (checkOnly : Bool) (o : Outcome) : String :=
  let library := o.target.library
  let path := o.target.outputPath.text
  let functions := toString o.functionsEmitted ++ " declaration(s)"
  if !o.success then
    "error: generation for `" ++ library ++ "` failed; " ++ path ++ " was not written"
  else if checkOnly then
    "     Checked `" ++ library ++ "`: " ++ functions ++ " from " ++ toString o.filesScanned ++
      " file(s), " ++ toString o.pass.warnings.length ++ " warning(s)"
  else "    Finished `" ++ library ++ "` -> " ++ path ++ " (" ++ functions ++ ")"

/-- The lines about a target: its warnings, its fatal errors, and how it ended. -/
def outcomeLines (checkOnly : Bool) (o : Outcome) : List Line :=
  o.pass.warnings.flatMap (fun d => (d.lines false).map .text) ++
    (o.pass.fatal.zip o.pass.errors).flatMap (fun (e, d) => fatalLines e d) ++
    [.text (lastLine checkOnly o)]

/-! ## For a program -/

/-- A value that may be missing. -/
def optional {α : Type} (f : α → Json) : Option α → Json
  | none => .null
  | some a => f a

/-- A diagnostic. Empty lists are left out. -/
def diagnosticJson (d : Diagnostic) : Json :=
  let list (key : String) (texts : List String) : List (String × Json) :=
    if texts.isEmpty then [] else [(key, .array (texts.map .string))]
  .object <|
    [("message", .string d.message), ("severity", .string d.severity.name),
      ("file", optional (fun p : Path => .string p.text) d.file),
      ("line", optional .number d.line)] ++
    list "context" d.context ++ list "suggestions" d.suggestions

/-- What becomes of a target. A missing fingerprint is left out. -/
def outcomeJson (o : Outcome) : Json :=
  .object <|
    [("library", .string o.target.library), ("output_path", .string o.target.outputPath.text),
      ("success", .boolean o.success), ("written", .boolean o.written),
      ("functions_emitted", .number o.functionsEmitted),
      ("files_scanned", .number o.filesScanned)] ++
    o.fingerprint.toList.map (fun f => ("fingerprint", .string f)) ++
    [("warnings", .array (o.pass.warnings.map diagnosticJson)),
      ("errors", .array (o.pass.errors.map diagnosticJson))]

/-- A whole run. -/
def runJson (checkOnly : Bool) (outcomes : List Outcome) : Json :=
  .object [("success", .boolean (outcomes.all (·.success))), ("check_only", .boolean checkOnly),
    ("targets", .array (outcomes.map outcomeJson))]

end NativeBindings.CommandLine

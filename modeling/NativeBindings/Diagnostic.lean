import NativeBindings.Path

/-!
# Diagnostics

A diagnostic is a message with a severity and, where they are known, the file and the line that it
is about.
-/

namespace NativeBindings

/-- A line of a file, counted from one. -/
structure Location where
  /-- The file. -/
  file : Path
  /-- The line. -/
  line : Nat
  deriving DecidableEq, Repr, Inhabited

/-- A location is shown as its file and its line with a colon between them. -/
def Location.text (l : Location) : String := l.file.text ++ ":" ++ toString l.line

/-- How serious a diagnostic is. -/
inductive Severity
  /-- The target could not be generated. -/
  | error
  /-- Something was skipped or replaced by a default. -/
  | warning
  /-- A remark. -/
  | note
  deriving DecidableEq, Repr, Inhabited

/-- The name of a severity. -/
def Severity.name : Severity → String
  | .error => "error"
  | .warning => "warning"
  | .note => "note"

/-- The name of a severity between the control sequences of a terminal that make it bold and
coloured. -/
def Severity.colouredName : Severity → String
  | .error => "\x1b[1;31merror\x1b[0m"
  | .warning => "\x1b[1;33mwarning\x1b[0m"
  | .note => "\x1b[1;36mnote\x1b[0m"

/-- A message about a place in the sources. -/
structure Diagnostic where
  /-- What is wrong. -/
  message : String
  /-- How serious it is. -/
  severity : Severity
  /-- The file concerned. -/
  file : Option Path := none
  /-- The line of that file. -/
  line : Option Nat := none
  /-- Further facts, in order. -/
  context : List String := []
  /-- Ways to mend it, in order. -/
  suggestions : List String := []
  deriving DecidableEq, Repr, Inhabited

namespace Diagnostic

/-- A diagnostic with a severity and a message only. -/
def new (severity : Severity) (message : String) : Diagnostic := { message, severity }

/-- The diagnostic about the given line. -/
def located (d : Diagnostic) (l : Location) : Diagnostic :=
  { d with file := some l.file, line := some l.line }

/-- The diagnostic about the given file; a line already known is kept. -/
def inFile (d : Diagnostic) (file : Path) : Diagnostic := { d with file := some file }

/-- The diagnostic with one more fact. -/
def withContext (d : Diagnostic) (fact : String) : Diagnostic :=
  { d with context := d.context ++ [fact] }

/-- The diagnostic with one more way to mend it. -/
def withSuggestion (d : Diagnostic) (text : String) : Diagnostic :=
  { d with suggestions := d.suggestions ++ [text] }

/-- A diagnostic of severity `error`. -/
def isError (d : Diagnostic) : Bool := d.severity == .error

/-- A diagnostic of severity `warning`. -/
def isWarning (d : Diagnostic) : Bool := d.severity == .warning

/-- The place that a diagnostic is about: its file, and the line where one is known. -/
def place? (d : Diagnostic) : Option String :=
  d.file.map fun file =>
    match d.line with
    | some line => Location.text ⟨file, line⟩
    | none => file.text

/-- The lines that show a diagnostic: message, place, facts and suggestions. -/
def lines (d : Diagnostic) (coloured : Bool) : List String :=
  let severity := if coloured then d.severity.colouredName else d.severity.name
  (severity ++ ": " ++ d.message) ::
    d.place?.toList.map ("  --> " ++ ·) ++ d.context.map ("  = " ++ ·) ++
      d.suggestions.map ("  " ++ ·)

/-- The text that shows a diagnostic, with a line feed after each line. -/
def render (d : Diagnostic) (coloured : Bool) : String :=
  String.join ((d.lines coloured).map (· ++ "\n"))

/-- The warnings of a list that are about the given file. -/
def warningsFor (file : Path) (ds : List Diagnostic) : List Diagnostic :=
  ds.filter fun d => d.isWarning && d.file.any (·.same file)

end Diagnostic

end NativeBindings

import NativeBindings.Catalogue
import NativeBindings.Conditional.LiveLine

/-!
# Fatal errors

The errors that keep the file of a target from being written.
-/

namespace NativeBindings

/-- Why the file of a target is not written. -/
inductive FatalError
  /-- The sections of a source do not fit together. -/
  | unbalanced (file : Path) (cause : Conditional.NestingError)
  /-- A name is declared in two ways. -/
  | conflict (c : Conflict)
  /-- The source directory does not exist. -/
  | sourceDirectory (path : Path)
  /-- A file or directory cannot be read or written. -/
  | io (path : Path) (message : String)
  deriving DecidableEq, Repr

namespace FatalError

/-- The text of an error. -/
def message : FatalError → String
  | .unbalanced file cause => "unbalanced conditional in " ++ file.text ++ ": " ++ cause.message
  | .conflict c => c.message
  | .sourceDirectory path => "source directory `" ++ path.text ++ "` does not exist"
  | .io path message => "I/O failure on `" ++ path.text ++ "`: " ++ message

/-- The code of an error. -/
def code : FatalError → String
  | .unbalanced _ _ => "methodgen::preprocess::unbalanced"
  | .conflict _ => "methodgen::model::conflict"
  | .sourceDirectory _ => "methodgen::config::source_dir"
  | .io _ _ => "methodgen::io"

/-- What to do about an error. -/
def help : FatalError → String
  | .unbalanced _ _ => "Check that every #if, #ifdef and #ifndef has a matching #endif"
  | .conflict _ => "Make the header declaration and the definition agree"
  | .sourceDirectory _ => "Pass an existing directory or fix `source_dir` in the configuration"
  | .io _ _ => "Check that the sources are readable and the output directory is writable"

/-- The diagnostic of an error. -/
def diagnostic : FatalError → Diagnostic
  | .unbalanced file cause =>
    ((Diagnostic.new .error ("unbalanced conditional: " ++ cause.message)).located
      ⟨file, cause.line⟩).withContext "the file was not scanned"
  | .conflict c => c.diagnostic
  | .sourceDirectory path =>
    ((Diagnostic.new .error ("source directory `" ++ path.text ++ "` does not exist")).inFile
      path).withSuggestion
      "help: Pass an existing directory or fix `source_dir` in the configuration"
  | .io path message => (Diagnostic.new .error ("I/O failure: " ++ message)).inFile path

end FatalError

end NativeBindings

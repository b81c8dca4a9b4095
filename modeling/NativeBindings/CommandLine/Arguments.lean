import NativeBindings.Path
import NativeBindings.Text.Natural
import NativeBindings.Text.Search

/-!
# Arguments

The arguments of the program are read word by word. A word starts with two dashes and names an
option, starts with one dash and holds the letters of options, or is a positional argument. The
first word that is wrong, or that asks for help or for the version, decides; what must stand
together is looked at last.
-/

namespace NativeBindings.CommandLine

/-- An option without a value. -/
inductive Flag
  /-- Log more. -/
  | verbose
  /-- Write no colours. -/
  | noColor
  /-- Report in JSON. -/
  | json
  deriving DecidableEq, Repr

/-- An option with a value. -/
inductive Setting
  /-- The configuration file. -/
  | config
  /-- The namespace around the generated class. -/
  | enclosing
  /-- The library of the first target. -/
  | library
  /-- The name of the first target's file. -/
  | outputFile
  /-- A symbol that is defined. -/
  | define
  /-- The source directory of a second target. -/
  | extSourceDir
  /-- The library of the second target. -/
  | extLibrary
  /-- The name of the second target's file. -/
  | extOutputFile
  /-- The number of threads. -/
  | jobs
  deriving DecidableEq, Repr

/-- What a name of an option stands for. -/
inductive Meaning
  /-- An option without a value. -/
  | flag (f : Flag)
  /-- An option with a value. -/
  | setting (s : Setting)
  /-- The request for help. -/
  | help
  /-- The request for the version. -/
  | version
  deriving DecidableEq, Repr

/-- The meaning of a name behind two dashes. -/
def Meaning.ofName? : String → Option Meaning
  | "verbose" => some (.flag .verbose)
  | "no-color" => some (.flag .noColor)
  | "json" => some (.flag .json)
  | "config" => some (.setting .config)
  | "namespace" => some (.setting .enclosing)
  | "library" => some (.setting .library)
  | "output-file" => some (.setting .outputFile)
  | "define" => some (.setting .define)
  | "ext-source-dir" => some (.setting .extSourceDir)
  | "ext-library" => some (.setting .extLibrary)
  | "ext-output-file" => some (.setting .extOutputFile)
  | "jobs" => some (.setting .jobs)
  | "help" => some .help
  | "version" => some .version
  | _ => none

/-- The meaning of a letter behind one dash. -/
def Meaning.ofLetter? : Char → Option Meaning
  | 'v' => some (.flag .verbose)
  | 'c' => some (.setting .config)
  | 'D' => some (.setting .define)
  | 'j' => some (.setting .jobs)
  | 'h' => some .help
  | 'V' => some .version
  | _ => none

/-- A part of the arguments. -/
inductive Part
  /-- An option without a value. -/
  | flag (f : Flag)
  /-- An option with its value. -/
  | setting (s : Setting) (value : String)
  /-- A positional argument. -/
  | positional (text : String)
  /-- The request for help. -/
  | help
  /-- The request for the version. -/
  | version
  /-- A part that is wrong. -/
  | misuse
  deriving DecidableEq, Repr

/-- The parts in a word, and the option at its end whose value is the next word. -/
abbrev WordParts := List Part × Option Setting

/-- The parts in a word behind its two dashes. -/
def longParts (t : Text) : WordParts :=
  let (name, value) :=
    match Text.splitFirst? ['='] t with
    | some (name, value) => (name, some (String.ofList value))
    | none => (t, none)
  match Meaning.ofName? (String.ofList name), value with
  | some (.setting s), some value => ([.setting s value], none)
  | some (.setting s), none => ([], some s)
  | some (.flag f), none => ([.flag f], none)
  | some .help, none => ([.help], none)
  | some .version, none => ([.version], none)
  | _, _ => ([.misuse], none)

/-- The parts in a word behind its single dash. Behind an option with a value all the rest of the
word is the value, without an equality sign in front. -/
def shortParts : Text → WordParts
  | [] => ([], none)
  | c :: cs =>
    let goOn (part : Part) : WordParts :=
      let (parts, pending) := shortParts cs
      (part :: parts, pending)
    match Meaning.ofLetter? c, cs with
    | some (.setting s), [] => ([], some s)
    | some (.setting s), '=' :: value => ([.setting s (String.ofList value)], none)
    | some (.setting s), value => ([.setting s (String.ofList value)], none)
    | some (.flag f), _ => goOn (.flag f)
    | some .help, _ => goOn .help
    | some .version, _ => goOn .version
    | none, _ => ([.misuse], none)

/-- Whether a word names options. A single dash does not. -/
def namesOptions (word : String) : Bool :=
  match word.toList with
  | '-' :: _ :: _ => true
  | _ => false

/-- The parts in a word. -/
def wordParts (word : String) : WordParts :=
  match word.toList with
  | '-' :: '-' :: name => longParts name
  | '-' :: c :: letters => shortParts (c :: letters)
  | _ => ([.positional word], none)

/-- The parts of the arguments behind the command. Two dashes alone make all later words
positional. -/
def parts : List String → List Part
  | [] => []
  | "--" :: words => words.map .positional
  | word :: words =>
    match wordParts word, words with
    | (ps, none), words => ps ++ parts words
    | (ps, some s), value :: words =>
      if namesOptions value then ps ++ [.misuse] else ps ++ .setting s value :: parts words
    | (ps, some _), [] => ps ++ [.misuse]

/-! ## Collecting the arguments -/

/-- Why the arguments ask for no run. -/
inductive Stop
  /-- They are wrong. -/
  | misuse
  /-- They ask for help. -/
  | help
  /-- They ask for the version. -/
  | version
  deriving DecidableEq, Repr

/-- The arguments behind the command. -/
structure Arguments where
  /-- The source directory. -/
  sourceDir : Option Path := none
  /-- The output directory. -/
  outputDir : Option Path := none
  /-- The configuration file. -/
  config : Option Path := none
  /-- The namespace around the generated class. -/
  enclosing : Option String := none
  /-- The library of the first target. -/
  library : Option String := none
  /-- The name of the first target's file. -/
  outputFile : Option String := none
  /-- The symbols that are defined, in order. -/
  defines : List String := []
  /-- The source directory of a second target. -/
  extSourceDir : Option Path := none
  /-- The library of the second target. -/
  extLibrary : Option String := none
  /-- The name of the second target's file. -/
  extOutputFile : Option String := none
  /-- The number of threads. -/
  jobs : Option Nat := none
  /-- The options without a value. -/
  flags : List Flag := []
  deriving DecidableEq, Repr

/-- A value that may be given once only. -/
def once {α : Type} (old : Option α) (new : α) : Except Stop (Option α) :=
  match old with
  | none => .ok (some new)
  | some _ => .error .misuse

/-- A path, which must not be empty. -/
def pathOf (value : String) : Except Stop Path :=
  if value.isEmpty then .error .misuse else .ok ⟨value⟩

/-- Flags with one more, which may be given once only. -/
def addFlag (flags : List Flag) (f : Flag) : Except Stop (List Flag) :=
  if f ∈ flags then .error .misuse else .ok (flags ++ [f])

namespace Arguments

/-- The arguments with the value of an option. -/
def set (a : Arguments) (value : String) : Setting → Except Stop Arguments
  | .config => return { a with config := ← once a.config (← pathOf value) }
  | .enclosing => return { a with enclosing := ← once a.enclosing value }
  | .library => return { a with library := ← once a.library value }
  | .outputFile => return { a with outputFile := ← once a.outputFile value }
  | .define => return { a with defines := a.defines ++ [value] }
  | .extSourceDir => return { a with extSourceDir := ← once a.extSourceDir (← pathOf value) }
  | .extLibrary => return { a with extLibrary := ← once a.extLibrary value }
  | .extOutputFile => return { a with extOutputFile := ← once a.extOutputFile value }
  | .jobs =>
    match Text.natural64? value.toList with
    | some n => return { a with jobs := ← once a.jobs n }
    | none => throw .misuse

/-- The arguments with one more positional argument. -/
def place (a : Arguments) (text : String) : Except Stop Arguments := do
  match a.sourceDir, a.outputDir with
  | none, _ => return { a with sourceDir := some (← pathOf text) }
  | some _, none => return { a with outputDir := some (← pathOf text) }
  | some _, some _ => throw .misuse

/-- The arguments with one more part. -/
def step (a : Arguments) : Part → Except Stop Arguments
  | .flag f => return { a with flags := ← addFlag a.flags f }
  | .setting s value => a.set value s
  | .positional text => a.place text
  | .help => throw .help
  | .version | .misuse => throw .misuse

/-- Whether all is given that the given arguments need: an output directory with a source
directory, and the source directory of the second target with its library or its file. -/
def complete (a : Arguments) : Bool :=
  (a.sourceDir.isNone || a.outputDir.isSome) &&
    ((a.extLibrary.isNone && a.extOutputFile.isNone) || a.extSourceDir.isSome)

/-- The arguments in the words behind the command. -/
def read (words : List String) : Except Stop Arguments := do
  let a ← (parts words).foldlM step {}
  if a.complete then return a else throw .misuse

end Arguments

/-- What the program is asked for. -/
structure Request where
  /-- Whether nothing is written. -/
  checkOnly : Bool
  /-- The arguments behind the command. -/
  arguments : Arguments
  deriving DecidableEq, Repr

/-- The commands, by name; whether nothing is written. -/
def commandOf? : String → Option Bool
  | "generate" => some false
  | "check" => some true
  | _ => none

/-- What the program is asked for, given the flags in front of the command so far. -/
def Request.readBehind (flags : List Flag) : List String → Except Stop Request
  | [] => .error .misuse
  | word :: words =>
    match commandOf? word with
    | some checkOnly => return ⟨checkOnly, ← Arguments.read words⟩
    | none =>
      if word = "help" then
        .error (if words ∈ [[], ["generate"], ["check"], ["help"]] then .help else .misuse)
      else do
        let flags ← (wordParts word).1.foldlM (fun flags part =>
          match part with
          | .flag .json => throw .misuse
          | .flag f => addFlag flags f
          | .help => throw .help
          | .version => throw .version
          | .setting _ _ | .positional _ | .misuse => throw .misuse) flags
        if (wordParts word).2.isSome then throw .misuse
        readBehind flags words

/-- What the program is asked for. -/
def Request.read (words : List String) : Except Stop Request := readBehind [] words

end NativeBindings.CommandLine

import NativeBindings.Comment
import NativeBindings.Conditional.Condition
import NativeBindings.Text.Lines

/-!
# Directives

A source is a sequence of ordinary lines and directives. A directive starts on a line that does not
start inside a block comment and whose code starts with `#`; a backslash at the end of its text
joins the next line to it. How a source is divided does not depend on the symbols.
-/

namespace NativeBindings.Conditional

/-- A line of a source. -/
structure SourceLine where
  /-- Its number, counted from one. -/
  number : Nat
  /-- Its text, without the line end. -/
  text : Text
  deriving DecidableEq, Repr

/-- The numbered lines of a source. -/
def SourceLine.ofText (source : Text) : List SourceLine :=
  (source.lines.zipIdx 1).map fun (text, number) => ⟨number, text⟩

/-- A part of a source. -/
inductive Item
  /-- A line that belongs to no directive. -/
  | ordinary (line : SourceLine)
  /-- A directive: its first line, the lines joined to it, and its text behind the `#`. -/
  | directive (first : SourceLine) (more : List SourceLine) (text : Text)
  deriving DecidableEq, Repr

/-- The lines that a part of a source is made of. -/
def Item.lines : Item → List SourceLine
  | .ordinary line => [line]
  | .directive first more _ => first :: more

namespace Item

/-- A directive that a backslash keeps open. -/
structure Open where
  /-- Its first line. -/
  first : SourceLine
  /-- The lines joined so far. -/
  more : List SourceLine
  /-- Its text so far, with the backslash. -/
  text : Text

/-- The directive as it stands. -/
def Open.close (d : Open) : Item := .directive d.first d.more d.text

/-- The directive with one more line, whose code takes the place of the backslash. -/
def Open.join (d : Open) (line : SourceLine) (code : Text) : Open :=
  ⟨d.first, d.more ++ [line], d.text.dropLast ++ ' ' :: code.trim⟩

/-- A text asks for another line when its last character is a backslash. -/
def continues (text : Text) : Bool := text.getLast? == some '\\'

/-- The text of the directive that a line starts, when its code starts one. -/
def directiveText? (code : Text) : Option Text :=
  match code.trim with
  | '#' :: cs => some (Text.trim (cs.dropWhile (· == '#')))
  | _ => none

/-- The parts of a source, given the reader in front of its first line and the directive that this
line continues. -/
def gather (r : Comment.LineReader) : Option Open → List SourceLine → List Item
  | none, [] => []
  | some d, [] => [d.close]
  | none, l :: ls =>
    let (line, r') := r.strip [] none l.text
    -- A line that starts inside a block comment starts no directive, whatever its code is.
    match (if r.inBlock then none else directiveText? line.code) with
    | none => .ordinary l :: gather r' none ls
    | some text =>
      let d : Open := ⟨l, [], text⟩
      if continues text then gather r' (some d) ls
      else d.close :: gather r' none ls
  | some d, l :: ls =>
    let (line, r') := r.strip [] none l.text
    -- The backslash joins the next line even when it starts inside a block comment.
    let d := d.join l line.code
    if continues d.text then gather r' (some d) ls
    else d.close :: gather r' none ls

/-- The parts of a source. -/
def ofText (source : Text) : List Item := gather {} none (SourceLine.ofText source)

end Item

/-- The condition of a section's first group. -/
inductive Test
  /-- The symbol is defined. -/
  | defined (name : String)
  /-- The symbol is not defined. -/
  | undefined (name : String)
  /-- The text is true as a condition. -/
  | condition (text : Text)
  deriving DecidableEq, Repr

/-- The value of a test for the given symbols, when it can be decided. -/
def Test.value? (symbols : SymbolSet) : Test → Option Bool
  | .defined name => some (symbols.isDefined name)
  | .undefined name => some (!symbols.isDefined name)
  | .condition text => evaluate? symbols text

/-- What a directive does to the sections around it. -/
inductive Directive
  /-- It opens a section. -/
  | opens (test : Test)
  /-- It starts a further group of a section, with a condition of its own. -/
  | elif (text : Text)
  /-- It starts the last group of a section. -/
  | otherwise
  /-- It closes a section. -/
  | closes
  /-- It has nothing to do with sections. -/
  | other
  deriving DecidableEq, Repr

/-- The directive with the given text: a keyword of identifier characters and the rest. -/
def Directive.ofText (text : Text) : Directive :=
  let keyword := String.ofList (text.takeWhile isIdentChar)
  let rest := text.dropWhile isIdentChar
  let name := String.ofList (Text.trim rest)
  match keyword with
  | "if" => .opens (.condition rest)
  | "ifdef" => .opens (.defined name)
  | "ifndef" => .opens (.undefined name)
  | "elif" => .elif rest
  | "else" => .otherwise
  | "endif" => .closes
  | _ => .other

end NativeBindings.Conditional

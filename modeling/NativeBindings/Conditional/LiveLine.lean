import NativeBindings.Conditional.Directive
import NativeBindings.Diagnostic

/-!
# Live lines

The lines that stay after conditional inclusion. A section is a sequence of groups, and its first
group whose condition is true is live when the section lies in live text. A condition that cannot
be decided makes its group live, without keeping a later group from being live too; this is
reported. The lines of a directive are never live.
-/

namespace NativeBindings.Conditional

/-- A section that is open at some point of a source. -/
structure Section where
  /-- The line of the directive that opened it. -/
  openedAt : Nat
  /-- Whether the text around the section is live. -/
  outerLive : Bool
  /-- Whether the condition of a group so far is known to be true. -/
  taken : Bool
  /-- Whether its last group has started. -/
  elseSeen : Bool
  /-- Whether the current group is live. -/
  live : Bool
  deriving DecidableEq, Repr

/-- Why the sections of a source do not fit together. -/
inductive NestingError
  /-- A directive that needs an open section stands outside every section. -/
  | unmatched (directive : String) (line : Nat)
  /-- A directive that starts a group follows the last group of its section. -/
  | afterElse (directive : String) (line : Nat)
  /-- A section is open at the end. -/
  | unterminated (line : Nat)
  deriving DecidableEq, Repr

namespace NestingError

/-- The line that an error is about. -/
def line : NestingError → Nat
  | .unmatched _ line | .afterElse _ line | .unterminated line => line

/-- The text of an error. -/
def message : NestingError → String
  | .unmatched directive line =>
    "`#" ++ directive ++ "` at line " ++ toString line ++ " has no matching `#if`"
  | .afterElse directive line => "`#" ++ directive ++ "` at line " ++ toString line ++
    " follows `#else`"
  | .unterminated line => "conditional opened at line " ++ toString line ++ " is never closed"

end NestingError

/-- A condition that cannot be decided and whose group would be live if it were true. -/
structure Undecided where
  /-- The line of its directive. -/
  line : Nat
  /-- The text of its directive. -/
  text : Text
  deriving DecidableEq, Repr

/-- The warning about a condition of the given file that cannot be decided. -/
def Undecided.diagnostic (file : Path) (u : Undecided) : Diagnostic :=
  ((Diagnostic.new .warning ("unsupported preprocessor condition `#" ++ String.ofList u.text ++
    "`; treating block as live")).located ⟨file, u.line⟩).withSuggestion
    "help: Rewrite the condition using only defined(SYM) joined by && or ||"

/-- A line of a source and whether it stays. -/
structure LiveLine extends SourceLine where
  /-- Whether the line stays. -/
  live : Bool
  deriving DecidableEq, Repr

/-- What conditional inclusion makes of a source. -/
structure Filtered where
  /-- Its lines, in order. -/
  lines : List LiveLine
  /-- The conditions that could not be decided, in order. -/
  undecided : List Undecided
  deriving DecidableEq, Repr

/-- The lines that stay. -/
def Filtered.live (f : Filtered) : List SourceLine := (f.lines.filter (·.live)).map (·.toSourceLine)

/-- Text is live when it lies outside every section or in a live group. -/
def isLive : List Section → Bool
  | [] => true
  | s :: _ => s.live

/-- The open sections after a directive, innermost first, and whether its condition is to be
reported. -/
def enter (symbols : SymbolSet) (sections : List Section) (line : Nat) :
    Directive → Except NestingError (List Section × Bool)
  | .opens test =>
    let live := isLive sections
    let value := test.value? symbols
    -- Where the section would not be live anyway, an undecided condition is not worth a report.
    .ok (⟨line, live, value == some true, false, live && value.getD true⟩ :: sections,
      value.isNone && live)
  | .elif text =>
    match sections with
    | [] => .error (.unmatched "elif" line)
    | s :: outer =>
      if s.elseSeen then .error (.afterElse "elif" line)
      else
        let value := evaluate? symbols text
        -- `taken` keeps to conditions known to be true, so that an undecided one hides nothing.
        .ok ({ s with
            taken := s.taken || value == some true
            live := s.outerLive && !s.taken && value.getD true } :: outer,
          value.isNone && s.outerLive && !s.taken)
  | .otherwise =>
    match sections with
    | [] => .error (.unmatched "else" line)
    | s :: outer =>
      if s.elseSeen then .error (.afterElse "else" line)
      else .ok ({ s with elseSeen := true, live := s.outerLive && !s.taken } :: outer, false)
  | .closes =>
    match sections with
    | [] => .error (.unmatched "endif" line)
    | _ :: outer => .ok (outer, false)
  | .other => .ok (sections, false)

/-- What conditional inclusion makes of the parts of a source, given the sections open before
them. -/
def filterItems (symbols : SymbolSet) : List Section → List Item → Except NestingError Filtered
  | sections, [] =>
    -- Of several open sections the error is about the outermost one.
    match sections.getLast? with
    | some s => .error (.unterminated s.openedAt)
    | none => .ok ⟨[], []⟩
  | sections, .ordinary line :: items => do
    let rest ← filterItems symbols sections items
    return ⟨⟨line, isLive sections⟩ :: rest.lines, rest.undecided⟩
  | sections, .directive first more text :: items => do
    let (sections, reported) ← enter symbols sections first.number (.ofText text)
    let rest ← filterItems symbols sections items
    return ⟨(first :: more).map (⟨·, false⟩) ++ rest.lines,
      if reported then ⟨first.number, text⟩ :: rest.undecided else rest.undecided⟩

/-- What conditional inclusion makes of a source for the given symbols. -/
def filter (symbols : SymbolSet) (source : Text) : Except NestingError Filtered :=
  filterItems symbols [] (Item.ofText source)

end NativeBindings.Conditional

import NativeBindings.Text.Blank

/-!
# Readers

A reader takes a value from the start of a text and leaves the rest, or fails. This module holds the
readers of single characters and repetition.
-/

namespace NativeBindings

/-- A reader takes a value from the start of a text and leaves the rest, or fails. -/
abbrev Reader (α : Type) := StateT Text Option α

namespace Reader

/-- Reads one character that satisfies `p`. -/
def one (p : Char → Bool) : Reader Char := fun t =>
  match t with
  | c :: cs => if p c then some (c, cs) else none
  | [] => none

/-- Reads the given text. -/
def literal (text : String) : Reader Unit := fun t =>
  (text.toList.isPrefixOf? t).map fun rest => ((), rest)

/-- Reads the longest run of characters that satisfy `p`. -/
def run (p : Char → Bool) : Reader Text := fun t => some (t.span p)

/-- The values that a reader takes from the start of a text one after the other, and the rest. It
stops when the reader fails or takes nothing. -/
def manyFrom {α : Type} (r : Reader α) (t : Text) : List α × Text :=
  match r t with
  | none => ([], t)
  | some (a, rest) =>
    if rest.length < t.length then
      let (as, rest) := manyFrom r rest
      (a :: as, rest)
    else ([a], rest)
termination_by t.length

/-- Reads a value as often as possible. -/
def many {α : Type} (r : Reader α) : Reader (List α) := fun t => some (manyFrom r t)

/-- Reads a value once or more often. -/
def many1 {α : Type} (r : Reader α) : Reader (List α) := do return (← r) :: (← many r)

/-- Reads the given number of characters that satisfy `p`. -/
def exactly (p : Char → Bool) : Nat → Reader Text
  | 0 => return []
  | n + 1 => do return (← one p) :: (← exactly p n)

/-- Reads values with a separator between neighbours, at least one. -/
def separated {α : Type} (r : Reader α) (separator : Reader Unit) : Reader (List α) := do
  return (← r) :: (← many do separator; r)

/-- Reads to the end of the text. -/
def atEnd : Reader Unit := fun t => if t.isEmpty then some ((), t) else none

end Reader

end NativeBindings

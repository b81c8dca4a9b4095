import NativeBindings.Text.Blank

/-!
# Lines

A line ends with a line feed, or with a carriage return and a line feed. A carriage return
elsewhere belongs to its line, and the text after the last line feed is a line only when it holds a
character.
-/

namespace NativeBindings.Text

/-- Puts a character in front of the first line, which it starts where there is none. -/
def consToFirst (c : Char) : List Text → List Text
  | [] => [[c]]
  | line :: lines => (c :: line) :: lines

/-- A character in front of lines belongs to the first one. -/
theorem consToFirst_append {c : Char} {ls : List Text} (h : ls ≠ []) (ms : List Text) :
    consToFirst c (ls ++ ms) = consToFirst c ls ++ ms := by
  obtain ⟨l, ls, rfl⟩ := List.exists_cons_of_ne_nil h
  rfl

/-- The lines of a text, without their ends. -/
def lines : Text → List Text
  | [] => []
  | '\n' :: cs => [] :: lines cs
  | '\r' :: '\n' :: cs => [] :: lines cs
  | c :: cs => consToFirst c (lines cs)

end NativeBindings.Text

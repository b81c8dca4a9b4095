import NativeBindings.Text.Blank

/-!
# Comments

A line of C or C++ is read from left to right. A block comment leaves one space in the code, unless
its whole text, trimmed, is one of the kept words: then the comment itself stays. A line comment
ends the code. Comment delimiters inside a string or character literal are code; a literal ends
with its line at the latest, a block comment goes on until it is closed.

A reader carries two things from line to line: whether it is inside a block comment, and the text
that it has read there. It collects the text without looking at it, and only a comment that closes
takes the text away.
-/

namespace NativeBindings.Comment

/-- What reading a line gives. -/
structure Line where
  /-- The code, comments replaced. -/
  code : Text
  /-- The text of the line comment at the end, when it has any. -/
  remark : Option Text
  /-- The text, last character first, of the block comment that the line leaves open. -/
  pending : Option Text
  deriving DecidableEq, Repr

namespace Line

/-- The line with more code in front. -/
def prepend (code : Text) (l : Line) : Line := { l with code := code ++ l.code }

/-- A line is blank when its code holds no word. -/
def isBlank (l : Line) : Bool := l.code.trim.isEmpty

end Line

/-- The code that stands for a closed block comment with the given text. -/
def replacement (kept : List Text) (text : Text) : Text :=
  if text.trim ∈ kept then " /*".toList ++ text.trim ++ "*/ ".toList else [' ']

/-- The text of a line comment, given from its slashes on; a comment without text has none. -/
def remark? (slashes : Text) : Option Text :=
  match Text.trim (slashes.dropWhile (· == '/')) with
  | [] => none
  | text => some text

/-- Both quotes of literals. -/
def isQuote (c : Char) : Bool := c == '\x22' || c == '\x27'

/-- What is carried from line to line. -/
structure LineReader where
  /-- Whether a block comment is open. -/
  inBlock : Bool := false
  /-- The text that has been read in block comments since one was closed, last character first. -/
  block : Text := []
  deriving DecidableEq, Repr

namespace LineReader

/-- What is read next on a line. -/
inductive Round
  /-- One character. Behind it there is this reader, inside the literal with the given quote or in
  none, and the character gives the code. -/
  | one (r : LineReader) (quote : Option Char) (code : Text)
  /-- Two characters, likewise. -/
  | two (r : LineReader) (quote : Option Char) (code : Text)
  /-- All the rest, which is a line comment. -/
  | rest
  deriving DecidableEq, Repr

/-- What is read where `c` is the next character and `next` the one behind it. -/
def round (kept : List Text) (r : LineReader) (quote : Option Char) (c : Char)
    (next : Option Char) : Round :=
  if r.inBlock then
    if c = '*' ∧ next = some '/' then
      .two { inBlock := false, block := [] } quote (replacement kept r.block.reverse)
    else .one { r with block := c :: r.block } quote []
  else
    match quote with
    | some q =>
      if c = '\\' then
        -- An escaped quote does not end a literal.
        match next with
        | some d => .two r (some q) [c, d]
        | none => .one r (some q) [c]
      else .one r (if c = q then none else some q) [c]
    | none =>
      if c = '/' ∧ next = some '*' then .two { r with inBlock := true } none []
      else if c = '/' ∧ next = some '/' then .rest
      else .one r (if isQuote c then some c else none) [c]

/-- The reader behind the end of a line, which belongs to an open comment too. -/
def lineEnd (r : LineReader) : LineReader :=
  if r.inBlock then { r with block := '\n' :: r.block } else r

/-- The text of the comment that is open, last character first. -/
def pending? (r : LineReader) : Option Text := if r.inBlock then some r.block else none

/-- What the end of a line gives, and the reader behind it. -/
def endWith (r : LineReader) (remark : Option Text) : Line × LineReader :=
  (⟨[], remark, r.lineEnd.pending?⟩, r.lineEnd)

/-- What the rest of a line gives, and the reader behind it. -/
def strip (kept : List Text) (r : LineReader) (quote : Option Char) : Text → Line × LineReader
  | [] => r.endWith none
  | c :: cs =>
    match r.round kept quote c cs.head? with
    | .one r quote code => (strip kept r quote cs).map (·.prepend code) id
    | .two r quote code =>
      match cs with
      | [] => r.endWith none
      | _ :: cs => (strip kept r quote cs).map (·.prepend code) id
    | .rest => r.endWith (remark? (c :: cs))

/-- What each line of a list gives, and the reader behind them. -/
def stripAll (kept : List Text) (r : LineReader) : List Text → List Line × LineReader
  | [] => ([], r)
  | l :: ls =>
    let (line, r) := r.strip kept none l
    let (lines, r) := stripAll kept r ls
    (line :: lines, r)

end LineReader

/-- What each line of a list gives, the first one starting outside comments. -/
def readLines (kept : List Text) (lines : List Text) : List Line :=
  (({} : LineReader).stripAll kept lines).1

end NativeBindings.Comment

import NativeBindings.SymbolSet
import NativeBindings.Text.Word

/-!
# Conditions

The conditions that can be decided are built from `defined(NAME)`, `defined NAME`, `0`, `1`, `!`,
`&&`, `||` and parentheses, where `&&` binds closer than `||`. A text is first cut into tokens, and
then read as a condition by recursive descent; each reader returns the tokens that it leaves with a
proof that they are fewer. Whether a text is a condition does not depend on the symbols.
-/

namespace NativeBindings.Conditional

/-- A token of a condition. -/
inductive Token
  /-- A name. -/
  | name (text : Text)
  /-- A run of identifier characters that starts with a digit. -/
  | number (text : Text)
  /-- An exclamation mark that no equals sign follows. -/
  | bang
  /-- Two ampersands. -/
  | and
  /-- Two bars. -/
  | or
  /-- An opening parenthesis. -/
  | opening
  /-- A closing parenthesis. -/
  | closing
  deriving DecidableEq, Repr

/-- The token of a run of identifier characters. -/
def Token.ofRun (run : Text) : Token :=
  if run.head?.any Char.isDigit then .number run else .name run

/-- The tokens of a text; none when a character belongs to no token. Only spaces and tabs may
stand between tokens. -/
def tokens? : Text → Option (List Token)
  | [] => some []
  | '&' :: '&' :: cs => (tokens? cs).map (.and :: ·)
  | '|' :: '|' :: cs => (tokens? cs).map (.or :: ·)
  | '!' :: '=' :: _ => none
  | '!' :: cs => (tokens? cs).map (.bang :: ·)
  | '(' :: cs => (tokens? cs).map (.opening :: ·)
  | ')' :: cs => (tokens? cs).map (.closing :: ·)
  | c :: cs =>
    have := length_dropWhile_le isIdentChar cs
    if c = ' ' ∨ c = '\t' then tokens? cs
    else if isIdentChar c then
      (tokens? (cs.dropWhile isIdentChar)).map (.ofRun (c :: cs.takeWhile isIdentChar) :: ·)
    else none
termination_by cs => cs.length

/-- A condition that the symbols decide. -/
inductive Condition
  /-- Always or never true. -/
  | literal (value : Bool)
  /-- True when the symbol is defined. -/
  | defined (name : String)
  /-- True when the other condition is false. -/
  | not (c : Condition)
  /-- True when both conditions are. -/
  | and (c d : Condition)
  /-- True when one of the conditions is. -/
  | or (c d : Condition)
  deriving DecidableEq, Repr

/-- The value of a condition for the given symbols. -/
def Condition.holds (symbols : SymbolSet) : Condition → Bool
  | .literal value => value
  | .defined name => symbols.isDefined name
  | .not c => !c.holds symbols
  | .and c d => c.holds symbols && d.holds symbols
  | .or c d => c.holds symbols || d.holds symbols

/-- What a reader gives: the condition and the tokens left, fewer than there were. -/
abbrev Reading (ts : List Token) :=
  Option (Condition × { rest : List Token // rest.length < ts.length })

mutual

/-- Reads conditions joined by `||`. -/
def readOr (ts : List Token) : Reading ts := do
  let (c, ⟨rest, hrest⟩) ← readAnd ts
  let (c, ⟨rest, h⟩) ← readOrs c rest
  return (c, ⟨rest, by omega⟩)
termination_by (ts.length, 3)

/-- Reads the conditions that further `||` join to one already read. -/
def readOrs (c : Condition) (ts : List Token) :
    Option (Condition × { rest : List Token // rest.length ≤ ts.length }) :=
  match ts with
  | .or :: ts => do
    let (d, ⟨rest, hrest⟩) ← readAnd ts
    let (c, ⟨rest, h⟩) ← readOrs (.or c d) rest
    return (c, ⟨rest, by simp only [List.length_cons]; omega⟩)
  | ts => some (c, ⟨ts, Nat.le_refl _⟩)
termination_by (ts.length, 0)

/-- Reads conditions joined by `&&`. -/
def readAnd (ts : List Token) : Reading ts := do
  let (c, ⟨rest, hrest⟩) ← readUnary ts
  let (c, ⟨rest, h⟩) ← readAnds c rest
  return (c, ⟨rest, by omega⟩)
termination_by (ts.length, 2)

/-- Reads the conditions that further `&&` join to one already read. -/
def readAnds (c : Condition) (ts : List Token) :
    Option (Condition × { rest : List Token // rest.length ≤ ts.length }) :=
  match ts with
  | .and :: ts => do
    let (d, ⟨rest, hrest⟩) ← readUnary ts
    let (c, ⟨rest, h⟩) ← readAnds (.and c d) rest
    return (c, ⟨rest, by simp only [List.length_cons]; omega⟩)
  | ts => some (c, ⟨ts, Nat.le_refl _⟩)
termination_by (ts.length, 0)

/-- Reads a negation, a parenthesised condition, `0`, `1` or a `defined` test. -/
def readUnary (ts : List Token) : Reading ts :=
  match ts with
  | .bang :: ts => do
    let (c, ⟨rest, h⟩) ← readUnary ts
    return (.not c, ⟨rest, by simp only [List.length_cons]; omega⟩)
  | .opening :: ts => do
    let (c, ⟨rest, h⟩) ← readOr ts
    match rest, h with
    | .closing :: rest, h => return (c, ⟨rest, by simp only [List.length_cons] at h ⊢; omega⟩)
    | _, _ => none
  | .number text :: ts =>
    if text = ['0'] then some (.literal false, ⟨ts, by simp⟩)
    else if text = ['1'] then some (.literal true, ⟨ts, by simp⟩)
    else none
  | .name word :: .name name :: ts =>
    if word = "defined".toList then
      some (.defined (String.ofList name), ⟨ts, by simp only [List.length_cons]; omega⟩)
    else none
  | .name word :: .opening :: .name name :: .closing :: ts =>
    if word = "defined".toList then
      some (.defined (String.ofList name), ⟨ts, by simp only [List.length_cons]; omega⟩)
    else none
  | _ => none
termination_by (ts.length, 1)

end

/-- The condition that a list of tokens is as a whole. -/
def Condition.ofTokens? (ts : List Token) : Option Condition :=
  match readOr ts with
  | some (c, ⟨[], _⟩) => some c
  | _ => none

/-- The condition that a text is, when it can be decided. -/
def Condition.parse? (text : Text) : Option Condition := (tokens? text).bind Condition.ofTokens?

/-- The value of a text as a condition for the given symbols, when it can be decided. -/
def evaluate? (symbols : SymbolSet) (text : Text) : Option Bool :=
  (Condition.parse? text).map (·.holds symbols)

end NativeBindings.Conditional

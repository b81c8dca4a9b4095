import NativeBindings.Text.Hexadecimal

/-!
# JSON texts

JSON values and their text, with each element on a line of its own.
-/

namespace NativeBindings.CommandLine

/-- A JSON value whose numbers are natural. -/
inductive Json
  /-- No value. -/
  | null
  /-- A truth value. -/
  | boolean (b : Bool)
  /-- A number. -/
  | number (n : Nat)
  /-- A string. -/
  | string (s : String)
  /-- An array. -/
  | array (elements : List Json)
  /-- An object. -/
  | object (members : List (String × Json))

namespace Json

/-- A character inside a string: quotes, backslashes and control characters are escaped. -/
def escape (c : Char) : List Char :=
  match c with
  | '\x22' => ['\\', '\x22']
  | '\\' => ['\\', '\\']
  | '\x08' => ['\\', 'b']
  | '\x0c' => ['\\', 'f']
  | '\n' => ['\\', 'n']
  | '\r' => ['\\', 'r']
  | '\t' => ['\\', 't']
  | c =>
    if c.toNat < 0x20 then
      ['\\', 'u', '0', '0', hexDigit (c.toNat / 16), hexDigit (c.toNat % 16)]
    else [c]

/-- A string in quotes. -/
def quoted (s : String) : String :=
  "\"" ++ String.ofList (s.toList.flatMap escape) ++ "\""

/-- Blanks in front of a line. -/
def margin (depth : Nat) : String := String.ofList (List.replicate (2 * depth) ' ')

/-- Texts between brackets, each on a line of its own. -/
def enclose (depth : Nat) (left right : String) (texts : List String) : String :=
  match texts with
  | [] => left ++ right
  | texts =>
    left ++ "\n" ++ ",\n".intercalate (texts.map (margin (depth + 1) ++ ·)) ++ "\n" ++
      margin depth ++ right

mutual

/-- The text of a value at a depth of nesting. -/
def textAt (depth : Nat) : Json → String
  | .null => "null"
  | .boolean b => if b then "true" else "false"
  | .number n => toString n
  | .string s => quoted s
  | .array elements => enclose depth "[" "]" (elementTexts (depth + 1) elements)
  | .object members => enclose depth "\x7b" "\x7d" (memberTexts (depth + 1) members)

/-- The texts of the elements of an array. -/
def elementTexts (depth : Nat) : List Json → List String
  | [] => []
  | v :: vs => textAt depth v :: elementTexts depth vs

/-- The texts of the members of an object. -/
def memberTexts (depth : Nat) : List (String × Json) → List String
  | [] => []
  | (key, v) :: ms => (quoted key ++ ": " ++ textAt depth v) :: memberTexts depth ms

end

/-- The text of a value. -/
def text (v : Json) : String := textAt 0 v

end Json

end NativeBindings.CommandLine

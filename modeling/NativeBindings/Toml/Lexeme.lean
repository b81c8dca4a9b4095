import NativeBindings.Text.Hexadecimal
import NativeBindings.Text.Reader

/-!
# Blanks, strings and keys in TOML

The lexical parts of a TOML document. Control characters other than the tab stand nowhere, and a
line ends with a line feed or with a carriage return and a line feed.
-/

namespace NativeBindings.Toml

open Reader

/-- A character that may stand in a comment: the tab and all that is no control character. -/
def isPlain (c : Char) : Bool := c == '\t' || (' ' ≤ c && c != '\x7f')

/-- A space or a tab. -/
def isSpace (c : Char) : Bool := c == ' ' || c == '\t'

/-- Skips spaces and tabs. -/
def spaces : Reader Unit := do let _ ← run isSpace

/-- Reads the end of a line. -/
def newline : Reader Unit := literal "\n" <|> literal "\r\n"

/-- Reads a comment without the end of its line. -/
def comment : Reader Unit := do
  literal "#"
  let _ ← run isPlain

/-- Reads what may follow on a line, with the end of the line or of the document. -/
def lineEnd : Reader Unit := do
  spaces
  let _ ← optional comment
  newline <|> atEnd

/-- Skips spaces, ends of lines and comments. -/
def gaps : Reader Unit := do
  let _ ← many (do spaces; newline)
  let _ ← many (do spaces; comment; newline; let _ ← many (do spaces; newline))
  spaces

/-! ## Strings -/

/-- A hexadecimal digit. -/
def isHexDigit (c : Char) : Bool := (hexDigitValue? c).isSome

/-- The number that digits denote. -/
def number (base : Nat) (digits : Text) : Nat :=
  digits.foldl (fun n d => base * n + (hexDigitValue? d).getD 0) 0

/-- Reads the given number of hexadecimal digits as a character. Surrogates and numbers above the
last character are refused. -/
def codePoint (digits : Nat) : Reader Char := do
  let n := number 16 (← exactly isHexDigit digits)
  if n.isValidChar then return Char.ofNat n else failure

/-- Reads what follows the backslash of an escape. -/
def escaped : Reader Char := do
  match ← one fun _ => true with
  | 'b' => return '\x08'
  | 't' => return '\t'
  | 'n' => return '\n'
  | 'f' => return '\x0c'
  | 'r' => return '\r'
  | '\x22' => return '\x22'
  | '\\' => return '\\'
  | 'u' => codePoint 4
  | 'U' => codePoint 8
  | _ => failure

/-- Reads a character of a basic string. -/
def basicChar : Reader Char :=
  one (fun c => isPlain c && c != '\x22' && c != '\\') <|> do literal "\\"; escaped

/-- Reads a basic string on one line. -/
def basicString : Reader Text := do
  literal "\""
  let t ← many basicChar
  literal "\""
  return t

/-- Reads a literal string on one line. -/
def literalString : Reader Text := do
  literal "'"
  let t ← run fun c => isPlain c && c != '\x27'
  literal "'"
  return t

/-- Reads one or two quotes that belong to a string on several lines. -/
def innerQuotes (quote : Char) : Reader Text := do
  let quotes ← run (· == quote)
  if quotes.length < 3 then return quotes else failure

/-- Reads the quotes at the end of a string on several lines; the first two of five, and the first
of four, belong to the string. -/
def closingQuotes (quote : Char) : Reader Text := fun t =>
  match (t.takeWhile (· == quote)).length with
  | 0 | 1 | 2 => none
  | n => some (List.replicate (min (n - 3) 2) quote, t.drop (min n 5))

/-- Reads the end of a line with a backslash in front, and all blanks behind it. -/
def lineContinuation : Reader Unit := do
  literal "\\"
  spaces
  newline
  let _ ← many (do spaces; newline)
  spaces

/-- Reads a part of a basic string on several lines. -/
def basicPart : Reader Text :=
  (do lineContinuation; return []) <|> (do newline; return ['\n']) <|>
    (do return [← basicChar]) <|> innerQuotes '\x22'

/-- Reads a part of a literal string on several lines. -/
def literalPart : Reader Text :=
  (do newline; return ['\n']) <|>
    (do return [← one fun c => isPlain c && c != '\x27']) <|> innerQuotes '\x27'

/-- Reads a string on several lines. The end of the line behind its opening quotes is no part of
it. -/
def longString (quote : Char) (part : Reader Text) : Reader Text := do
  literal (String.ofList [quote, quote, quote])
  let _ ← optional newline
  let parts ← many part
  return parts.flatten ++ (← closingQuotes quote)

/-- Reads a string. -/
def string : Reader Text := fun t =>
  match t with
  | '\x22' :: '\x22' :: '\x22' :: _ => longString '\x22' basicPart t
  | '\x22' :: _ => basicString t
  | '\x27' :: '\x27' :: '\x27' :: _ => longString '\x27' literalPart t
  | _ => literalString t

/-! ## Keys -/

/-- A character of a key without quotes. -/
def isBare (c : Char) : Bool := c.isAlphanum || c == '-' || c == '_'

/-- Reads a key without dots. -/
def simpleKey : Reader String := do
  return String.ofList (← basicString <|> literalString <|> many1 (one isBare))

/-- The number of keys at which a dotted key is too long. -/
def keyLimit : Nat := 80

/-- Reads a dotted key: the keys before the last dot and the last one. -/
def key : Reader (List String × String) := do
  let keys ← separated (do spaces; let k ← simpleKey; spaces; return k) (literal ".")
  if keys.length < keyLimit then return (keys.dropLast, keys.getLastD "") else failure

end NativeBindings.Toml

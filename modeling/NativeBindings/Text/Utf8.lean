import NativeBindings.Text.Blank

/-!
# UTF-8

A text is written as one to four bytes per character. Reading goes byte by byte: the first byte of
a character tells how many bytes follow and in which range the next one lies. Bytes that start no
character, and a character that breaks off, are invalid; each longest start of a character that
cannot go on counts once.
-/

namespace NativeBindings.Utf8

/-- The bytes of a text. -/
def encode (t : Text) : List UInt8 := t.flatMap String.utf8EncodeChar

/-- A character of which some bytes have been read. -/
structure Pending where
  /-- The number that the bytes read so far denote. -/
  value : Nat
  /-- How many bytes are still to come after the next one. -/
  owed : Nat
  /-- The least next byte. -/
  low : Nat := 0x80
  /-- The greatest next byte. -/
  high : Nat := 0xBF
  deriving DecidableEq, Repr

/-- What a first byte starts: a whole character, or one with further bytes. The ranges keep out
longer spellings than needed, surrogates and numbers above the last character. -/
inductive Start
  /-- A character of one byte. -/
  | whole (c : Char)
  /-- A character of several bytes. -/
  | part (p : Pending)
  /-- No character. -/
  | invalid
  deriving DecidableEq, Repr

/-- What the given byte starts. -/
def Start.ofByte (byte : UInt8) : Start :=
  let b := byte.toNat
  if b ≤ 0x7F then .whole (Char.ofNat b)
  else if b < 0xC2 then .invalid
  else if b ≤ 0xDF then .part { value := b - 0xC0, owed := 0 }
  else if b = 0xE0 then .part { value := 0, owed := 1, low := 0xA0 }
  else if b = 0xED then .part { value := 0xD, owed := 1, high := 0x9F }
  else if b ≤ 0xEF then .part { value := b - 0xE0, owed := 1 }
  else if b = 0xF0 then .part { value := 0, owed := 2, low := 0x90 }
  else if b ≤ 0xF3 then .part { value := b - 0xF0, owed := 2 }
  else if b = 0xF4 then .part { value := 4, owed := 2, high := 0x8F }
  else .invalid

/-- The characters that bytes denote, behind the pending one; none for each invalid part. -/
def readFrom (pending : Option Pending) : List UInt8 → List (Option Char)
  | [] => pending.toList.map fun _ => none
  | byte :: bytes =>
    let start : List (Option Char) :=
      match Start.ofByte byte with
      | .whole c => some c :: readFrom none bytes
      | .part p => readFrom (some p) bytes
      | .invalid => none :: readFrom none bytes
    match pending with
    | none => start
    | some p =>
      let b := byte.toNat
      if p.low ≤ b ∧ b ≤ p.high then
        let value := 64 * p.value + (b - 0x80)
        match p.owed with
        | 0 => some (Char.ofNat value) :: readFrom none bytes
        | owed + 1 => readFrom (some { value, owed }) bytes
      -- The pending part ends here, and the byte starts anew: it is not skipped.
      else none :: start

/-- The characters that bytes denote; none for each invalid part. -/
def read (bytes : List UInt8) : List (Option Char) := readFrom none bytes

/-- The text that bytes denote, when no part of them is invalid. -/
def decode? (bytes : List UInt8) : Option Text := (read bytes).mapM id

/-- The text that bytes denote, with the replacement character U+FFFD for each invalid part. -/
def decodeLossy (bytes : List UInt8) : Text := (read bytes).map (·.getD '\ufffd')

end NativeBindings.Utf8

import NativeBindings.Toml.Lexeme
import NativeBindings.Toml.Value

/-!
# Numbers and dates in TOML
-/

namespace NativeBindings.Toml

open Reader

/-- An ASCII digit. -/
def isDigit (c : Char) : Bool := '0' ≤ c && c ≤ '9'

/-- Reads digits, between which single underscores may stand. -/
def digits (p : Char → Bool) : Reader Text := do
  return (← one p) :: (← many ((do literal "_"; one p) <|> one p))

/-- Reads a sign; whether it is a minus. -/
def sign : Reader Bool := do
  return (← optional (one fun c => c == '+' || c == '-')) = some '-'

/-- Reads the digits of a decimal integer, the first of which is zero only when it is the last. -/
def decimalDigits : Reader Text := do
  match ← one isDigit with
  | '0' => return ['0']
  | c => return c :: (← many ((do literal "_"; one isDigit) <|> one isDigit))

/-- The integer of a sign and a magnitude, when it fits into sixty-four bits. -/
def integer? (negative : Bool) (magnitude : Nat) : Option Int :=
  if negative then if magnitude ≤ Nat.pow 2 63 then some (-magnitude) else none
  else if magnitude < Nat.pow 2 63 then some magnitude else none

/-- Reads an integer in the given base behind its mark. -/
def basedInteger (mark : String) (base : Nat) (p : Char → Bool) : Reader Int := do
  literal mark
  integer? false (number base (← digits p))

/-- Reads an integer. -/
def integer : Reader Int :=
  basedInteger "0x" 16 isHexDigit <|>
    basedInteger "0o" 8 (fun c => '0' ≤ c && c ≤ '7') <|>
    basedInteger "0b" 2 (fun c => c == '0' || c == '1') <|> do
    let negative ← sign
    integer? negative (number 10 (← decimalDigits))

/-! ## Fractions and exponents -/

/-- The least number that is too large for a float of double precision, after rounding to the
nearest one. -/
def floatLimit : Nat := Nat.pow 2 1024 - Nat.pow 2 970

/-- Whether `mantissa` times ten to the given power is too large for a float. Powers far from the
limit are decided by the number of digits alone. -/
def overflows (mantissa : Nat) (negative : Bool) (exponent : Nat) : Bool :=
  let size := (Nat.toDigits 10 mantissa).length
  if mantissa = 0 then false
  else if negative then
    if size ≤ exponent then false else decide (floatLimit * Nat.pow 10 exponent ≤ mantissa)
  else if 310 < size + exponent then true
  else decide (floatLimit ≤ mantissa * Nat.pow 10 exponent)

/-- Reads an exponent: whether it is negative, and its digits. -/
def exponent : Reader (Bool × Text) := do
  let _ ← one fun c => c == 'e' || c == 'E'
  let negative ← sign
  return (negative, ← digits isDigit)

/-- Reads a number with a fraction or an exponent. One that is too large is refused, unless it is
negative. -/
def fractional : Reader Unit := do
  let negative ← sign
  let whole ← decimalDigits
  let fraction ← optional do literal "."; digits isDigit
  let power ← optional exponent
  if fraction.isNone && power.isNone then failure
  let places := fraction.getD []
  let (down, size) := power.getD (false, ['0'])
  let size : Int := number 10 size
  let shift := (if down then -size else size) - places.length
  if !negative && overflows (number 10 (whole ++ places)) (shift < 0) shift.natAbs then failure

/-- Reads an infinity or a number that is none. -/
def special : Reader Unit := do
  let _ ← sign
  literal "inf" <|> literal "nan"

/-- Reads a value with `r`, and the text that it is read from. -/
def withText {α : Type} (r : Reader α) : Reader (α × Text) := fun t =>
  (r t).map fun (a, rest) => ((a, t.take (t.length - rest.length)), rest)

/-- Reads a float. -/
def float : Reader String := do
  let ((), text) ← withText (fractional <|> special)
  return String.ofList text

/-! ## Dates and times -/

/-- Reads a number of two digits between two bounds; its digits. -/
def twoDigits (low high : Nat) : Reader Text := do
  let ds ← exactly isDigit 2
  if low ≤ number 10 ds ∧ number 10 ds ≤ high then return ds else failure

/-- The number of days in a month. -/
def daysIn (year month : Nat) : Nat :=
  let leap := year % 4 = 0 ∧ (year % 100 ≠ 0 ∨ year % 400 = 0)
  if month = 2 then if leap then 29 else 28
  else if month ∈ [4, 6, 9, 11] then 30
  else 31

/-- Reads a date. -/
def date : Reader Text := do
  let year ← exactly isDigit 4
  literal "-"
  let month ← twoDigits 1 12
  literal "-"
  let day ← twoDigits 1 (daysIn (number 10 year) (number 10 month))
  return year ++ '-' :: month ++ '-' :: day

/-- The fraction of a second in its normal spelling: nine places at most, without zeros at the
end. -/
def normalFraction (places : Text) : Text :=
  match dropTrailing (· == '0') (places.take 9) with
  | [] => []
  | ds => '.' :: ds

/-- Reads a time of the day; a minute may have a leap second. -/
def time : Reader Text := do
  let hour ← twoDigits 0 23
  literal ":"
  let minute ← twoDigits 0 59
  literal ":"
  let second ← twoDigits 0 60
  let places ← optional do literal "."; many1 (one isDigit)
  return hour ++ ':' :: minute ++ ':' :: second ++ normalFraction (places.getD [])

/-- Reads the distance from universal time; no distance has a plus. -/
def offset : Reader Text :=
  (do let _ ← one fun c => c == 'Z' || c == 'z'; return ['Z']) <|> do
    let c ← one fun c => c == '+' || c == '-'
    let hour ← twoDigits 0 23
    literal ":"
    let minute ← twoDigits 0 59
    let c := if number 10 (hour ++ minute) = 0 then '+' else c
    return c :: hour ++ ':' :: minute

/-- Reads a time behind a date, with the distance from universal time where there is one. -/
def timeBehindDate : Reader Text := do
  let _ ← one fun c => c == 'T' || c == 't' || c == ' '
  let t ← time
  return 'T' :: t ++ (← optional offset).getD []

/-- Reads a date, a time, or both, in the normal spelling. -/
def datetime : Reader String := do
  let t ← (do return (← date) ++ (← optional timeBehindDate).getD []) <|> time
  return String.ofList t

/-- Reads a number or a date. -/
def numeric : Reader Value :=
  (.datetime <$> datetime) <|> (.float <$> float) <|> (.integer <$> integer)

end NativeBindings.Toml

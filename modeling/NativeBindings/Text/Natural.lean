import NativeBindings.Text.Blank

/-!
# Natural numbers in decimal
-/

namespace NativeBindings.Text

/-- The number that a text of ASCII digits denotes, with a plus sign in front or without; none when
it does not fit into sixty-four bits. -/
def natural64? (t : Text) : Option Nat :=
  let digits :=
    match t with
    | '+' :: ds => ds
    | ds => ds
  if digits.isEmpty || !digits.all Char.isDigit then none
  else
    let n := digits.foldl (fun n d => 10 * n + (d.toNat - '0'.toNat)) 0
    if n < Nat.pow 2 64 then some n else none

end NativeBindings.Text

/-!
# Numbers in paths and arguments

Where a text stands for a count or a position, it is decimal digits, with or without one plus sign in
front and with any number of leading zeros; the number has to fit 64 bits.
-/

namespace Telemetry

/-- The number that decimal digits stand for, after those that make up `n`. -/
def decimalValue (n : Nat) (digits : List Char) : Nat :=
  digits.foldl (fun n c => 10 * n + (c.toNat - 48)) n

/-- Whether a character is a decimal digit. -/
def isDecimalDigit (c : Char) : Bool :=
  '0' ≤ c && c ≤ '9'

/-- The number below `2 ^ 64` that a text stands for. -/
def natural64? (text : List Char) : Option Nat :=
  let digits := match text with
    | '+' :: rest => rest
    | _ => text
  if digits.isEmpty || !digits.all isDecimalDigit then none
  else
    let n := decimalValue 0 digits
    if n < UInt64.size then some n else none

end Telemetry

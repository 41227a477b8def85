import Telemetry.Bytes
import Telemetry.Decimal.Shortest
import Telemetry.Json

/-!
# JSON text, written

Compact text: no blanks, members in order. Strings escape the quote, the backslash and control
characters, and nothing else. Doubles are the shortest decimals that read back, positional while the
leading digit stands for `10 ^ -5` to `10 ^ 15`, and in scientific form beyond; a double that is not
finite has no JSON text and is written as null.
-/

namespace Telemetry.Json

/-! ## Numbers -/

/-- Decimal digits of a number. -/
def naturalText (n : Nat) : List Char :=
  Nat.toDigits 10 n

/-- An integer, with a sign if it is negative. -/
def integerText (n : Int) : List Char :=
  if n < 0 then '-' :: naturalText n.natAbs else naturalText n.natAbs

/-- A positive decimal. With `e` the power of ten of its leading digit, the form is positional for
`-5 ≤ e < 16`, always with a fraction, and otherwise scientific, always with a sign on the exponent. -/
def decimalText (d : Decimal) : List Char :=
  let digits := naturalText d.digits
  let e := d.exponent + digits.length - 1
  if 0 ≤ e ∧ e < 16 then
    let whole := e.toNat + 1
    if digits.length ≤ whole then
      digits ++ List.replicate (whole - digits.length) '0' ++ ['.', '0']
    else digits.take whole ++ '.' :: digits.drop whole
  else if -5 ≤ e ∧ e < 0 then
    '0' :: '.' :: List.replicate (-e - 1).toNat '0' ++ digits
  else
    digits.take 1 ++ (if digits.length = 1 then [] else '.' :: digits.drop 1) ++
      'e' :: (if e < 0 then '-' else '+') :: naturalText e.natAbs

/-- A double; null if it is not finite. -/
def doubleText (d : Double) : List Char :=
  if !d.isFinite then ['n', 'u', 'l', 'l']
  else
    let magnitude := if d.isZero then ['0', '.', '0'] else decimalText (Decimal.shortest d)
    if d.isNegative then '-' :: magnitude else magnitude

/-! ## Strings -/

/-- A character inside a string. -/
def escaped (c : Char) : List Char :=
  if c = '"' then ['\\', '"']
  else if c = '\\' then ['\\', '\\']
  else if c = '\x08' then ['\\', 'b']
  else if c = '\x0c' then ['\\', 'f']
  else if c = '\n' then ['\\', 'n']
  else if c = '\r' then ['\\', 'r']
  else if c = '\t' then ['\\', 't']
  else if c.toNat < 32 then
    ['\\', 'u', '0', '0', Bytes.hexDigit (c.toNat / 16), Bytes.hexDigit (c.toNat % 16)]
  else [c]

/-- A string with its quotes. -/
def quoted (s : String) : List Char :=
  '"' :: s.toList.flatMap escaped ++ ['"']

/-! ## Values -/

mutual

/-- The characters of a value. -/
def chars : Json → List Char
  | .null => ['n', 'u', 'l', 'l']
  | .boolean true => ['t', 'r', 'u', 'e']
  | .boolean false => ['f', 'a', 'l', 's', 'e']
  | .integer n => integerText n
  | .double d => doubleText d
  | .text s => quoted s
  | .array [] => ['[', ']']
  | .array (v :: rest) => '[' :: chars v ++ charsOfItems rest
  | .object [] => ['{', '}']
  | .object ((key, v) :: rest) => '{' :: quoted key ++ ':' :: chars v ++ charsOfMembers rest

/-- The items after the first, and the closing bracket. -/
def charsOfItems : List Json → List Char
  | [] => [']']
  | v :: rest => ',' :: chars v ++ charsOfItems rest

/-- The members after the first, and the closing brace. -/
def charsOfMembers : List (String × Json) → List Char
  | [] => ['}']
  | (key, v) :: rest => ',' :: quoted key ++ ':' :: chars v ++ charsOfMembers rest

end

/-- The compact text of a value. -/
def render (j : Json) : String :=
  String.ofList (chars j)

end Telemetry.Json

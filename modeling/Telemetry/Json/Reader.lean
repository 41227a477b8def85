import Telemetry.Decimal.Nearest
import Telemetry.Json
import Telemetry.Text.Natural

/-!
# JSON text, read

Strict JSON: blanks are the space, tab, line feed and carriage return; arrays and objects nest at most
127 deep; a string may not hold a control character or half of a surrogate pair; a number has no
leading zeros and must lie within the range of doubles. Nothing may follow the value.

Without fraction or exponent a number is an integer if it lies between `-2 ^ 63` and `2 ^ 64 - 1`, and
a double beyond. Minus zero is a double, since no integer keeps the sign.

## Shape of the reader

`readValue`, `readItems` and `readMembers` call each other on what is left of the text. Of any two
calls in a row at least one has consumed a character, so twice the length of the text bounds how deep
they go; that bound is the first argument, and a reader that reaches zero has no text left to read
either. The second argument is how many more arrays or objects may be opened.
-/

namespace Telemetry.Json

/-! ## Blanks -/

/-- The characters that may stand between tokens. -/
def isBlank (c : Char) : Bool :=
  c = ' ' || c = '\t' || c = '\n' || c = '\r'

/-- What follows any blanks. -/
def skip (cs : List Char) : List Char :=
  cs.dropWhile isBlank

/-! ## Numbers -/

/-- The parts of a number after its sign: the digits before the point, those after it, and the exponent. -/
structure Numeral where
  whole : List Char
  fraction? : Option (List Char)
  exponent? : Option Int

/-- An exponent, if one follows: its value, and what is left. An `e` without digits is no number. -/
def readExponent (cs : List Char) : Option (Option Int × List Char) :=
  match cs with
  | c :: rest =>
    if c = 'e' ∨ c = 'E' then
      let (negative, rest) := match rest with
        | '+' :: rest => (false, rest)
        | '-' :: rest => (true, rest)
        | _ => (false, rest)
      let digits := rest.takeWhile isDecimalDigit
      if digits.isEmpty then none
      else
        let n := decimalValue 0 digits
        some (some (if negative then -(n : Int) else n), rest.dropWhile isDecimalDigit)
    else some (none, cs)
  | [] => some (none, cs)

/-- A fraction, if one follows: its digits, and what is left. A point without digits is no number. -/
def readFraction (cs : List Char) : Option (Option (List Char) × List Char) :=
  match cs with
  | '.' :: rest =>
    let digits := rest.takeWhile isDecimalDigit
    if digits.isEmpty then none else some (some digits, rest.dropWhile isDecimalDigit)
  | _ => some (none, cs)

/-- A number after its sign, and what follows it. -/
def readNumeral (cs : List Char) : Option (Numeral × List Char) :=
  let whole := cs.takeWhile isDecimalDigit
  if whole.isEmpty || (whole.head? == some '0' && 1 < whole.length) then none
  else
    match readFraction (cs.dropWhile isDecimalDigit) with
    | none => none
    | some (fraction?, rest) =>
      match readExponent rest with
      | none => none
      | some (exponent?, rest) => some (⟨whole, fraction?, exponent?⟩, rest)

/-- The value of a number without fraction or exponent. -/
def wholeNumber (negative : Bool) (n : Nat) : Option Json :=
  if negative then
    if n = 0 ∨ 0x8000000000000000 < n then (Decimal.nearest? true n 0).map .double else some (.integer (-n))
  else
    if n < UInt64.size then some (.integer n) else (Decimal.nearest? false n 0).map .double

/-- The value of a number; there is none beyond the largest double. -/
def Numeral.value? (negative : Bool) (x : Numeral) : Option Json :=
  let n := decimalValue 0 x.whole
  match x.fraction?, x.exponent? with
  | none, none => wholeNumber negative n
  | _, _ =>
    let fraction := x.fraction?.getD []
    let exponent := x.exponent?.getD 0 - fraction.length
    (Decimal.nearest? negative (decimalValue n fraction) exponent).map .double

/-- The value of a number after its sign, and what follows it. -/
def readNumber (negative : Bool) (cs : List Char) : Option (Json × List Char) :=
  match readNumeral cs with
  | none => none
  | some (x, rest) => (x.value? negative).map (·, rest)

/-! ## Strings -/

/-- The value of a hexadecimal digit. -/
def hexValue? (c : Char) : Option Nat :=
  if '0' ≤ c ∧ c ≤ '9' then some (c.toNat - 48)
  else if 'a' ≤ c ∧ c ≤ 'f' then some (c.toNat - 87)
  else if 'A' ≤ c ∧ c ≤ 'F' then some (c.toNat - 55)
  else none

/-- The 16-bit unit written by four hexadecimal digits. -/
def unit? (a b c d : Char) : Option Nat :=
  match hexValue? a, hexValue? b, hexValue? c, hexValue? d with
  | some a, some b, some c, some d => some (((a * 16 + b) * 16 + c) * 16 + d)
  | _, _, _, _ => none

/-- The character that a one-letter escape stands for. -/
def simpleEscape? (c : Char) : Option Char :=
  if c = '"' then some '"'
  else if c = '\\' then some '\\'
  else if c = '/' then some '/'
  else if c = 'b' then some '\x08'
  else if c = 'f' then some '\x0c'
  else if c = 'n' then some '\n'
  else if c = 'r' then some '\r'
  else if c = 't' then some '\t'
  else none

/-- The characters of a string after its opening quote, and what follows its closing quote. -/
def readText : List Char → Option (List Char × List Char)
  | [] => none
  | '"' :: rest => some ([], rest)
  | '\\' :: 'u' :: a :: b :: c :: d :: rest =>
    match unit? a b c d with
    | none => none
    | some high =>
      -- a high surrogate needs its low one right behind it
      if 0xD800 ≤ high ∧ high < 0xDC00 then
        match rest with
        | '\\' :: 'u' :: e :: f :: g :: h :: rest =>
          match unit? e f g h with
          | none => none
          | some low =>
            if 0xDC00 ≤ low ∧ low < 0xE000 then
              (readText rest).map fun (cs, rest) =>
                (Char.ofNat (0x10000 + (high - 0xD800) * 0x400 + (low - 0xDC00)) :: cs, rest)
            else none
        | _ => none
      else if 0xDC00 ≤ high ∧ high < 0xE000 then none
      else (readText rest).map fun (cs, rest) => (Char.ofNat high :: cs, rest)
  | '\\' :: e :: rest =>
    match simpleEscape? e with
    | none => none
    | some c => (readText rest).map fun (cs, rest) => (c :: cs, rest)
  | c :: rest =>
    if c.toNat < 32 ∨ c = '\\' then none
    else (readText rest).map fun (cs, rest) => (c :: cs, rest)

/-! ## Values -/

mutual

/-- A value, after any blanks, and what follows it. -/
def readValue : (bound depth : Nat) → List Char → Option (Json × List Char)
  | 0, _, _ => none
  | bound + 1, depth, cs =>
    match skip cs with
    | 'n' :: 'u' :: 'l' :: 'l' :: rest => some (.null, rest)
    | 't' :: 'r' :: 'u' :: 'e' :: rest => some (.boolean true, rest)
    | 'f' :: 'a' :: 'l' :: 's' :: 'e' :: rest => some (.boolean false, rest)
    | '"' :: rest => (readText rest).map fun (s, rest) => (.text (String.ofList s), rest)
    | '[' :: rest =>
      match depth with
      | 0 => none
      | depth + 1 =>
        match skip rest with
        | ']' :: rest => some (.array [], rest)
        | _ => (readItems bound depth rest).map fun (items, rest) => (.array items, rest)
    | '{' :: rest =>
      match depth with
      | 0 => none
      | depth + 1 =>
        match skip rest with
        | '}' :: rest => some (.object [], rest)
        | _ => (readMembers bound depth rest).map fun (members, rest) =>
            (.object (distinct members), rest)
    | '-' :: rest => readNumber true rest
    | cs => readNumber false cs

/-- The items of an array that has at least one more, and what follows the closing bracket. -/
def readItems : (bound depth : Nat) → List Char → Option (List Json × List Char)
  | 0, _, _ => none
  | bound + 1, depth, cs =>
    match readValue bound depth cs with
    | none => none
    | some (item, rest) =>
      match skip rest with
      | ',' :: rest => (readItems bound depth rest).map fun (items, rest) => (item :: items, rest)
      | ']' :: rest => some ([item], rest)
      | _ => none

/-- The members of an object that has at least one more, and what follows the closing brace. -/
def readMembers : (bound depth : Nat) → List Char → Option (List (String × Json) × List Char)
  | 0, _, _ => none
  | bound + 1, depth, cs =>
    match skip cs with
    | '"' :: rest =>
      match readText rest with
      | none => none
      | some (key, rest) =>
        match skip rest with
        | ':' :: rest =>
          match readValue bound depth rest with
          | none => none
          | some (value, rest) =>
            match skip rest with
            | ',' :: rest => (readMembers bound depth rest).map fun (members, rest) =>
                ((String.ofList key, value) :: members, rest)
            | '}' :: rest => some ([(String.ofList key, value)], rest)
            | _ => none
        | _ => none
    | _ => none

end

/-- How deep arrays and objects may nest. -/
def maxDepth : Nat := 127

/-- The value of a JSON text, or nothing if the text is not JSON. -/
def parseChars (cs : List Char) : Option Json :=
  match readValue (2 * cs.length + 2) maxDepth cs with
  | some (j, rest) => if (skip rest).isEmpty then some j else none
  | none => none

/-- The value of a JSON text, or nothing if the text is not JSON. -/
def parse (s : String) : Option Json :=
  parseChars s.toList

end Telemetry.Json

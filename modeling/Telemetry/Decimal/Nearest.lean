import Telemetry.Double

/-!
# The double nearest to a decimal

A decimal `n · 10 ^ e` is read as the double nearest to it, a tie going to the even significand. A
decimal beyond the largest double has none; one too small for any double is a zero.

The significand of a double is a whole number of units `2 ^ q`, and both the significand and the unit
can be packed at once: `(q + 1074) · 2 ^ 52 + significand` is the bit pattern, whether the number is
normal, subnormal, or has just been rounded up to the next power of two.
-/

namespace Telemetry.Decimal

/-- A quotient rounded to the nearest whole number, ties to even. -/
def roundDiv (num den : Nat) : Nat :=
  let q := num / den
  let r := num % den
  if 2 * r < den then q else if den < 2 * r then q + 1 else q + q % 2

/-- The bits of the double nearest to the positive fraction `num / den`; `none` if it lies beyond the
largest double. -/
def bitsOfRatio? (num den : Nat) : Option Nat :=
  let t : Int := (Nat.log2 num : Int) - Nat.log2 den
  let reached : Bool := den * Nat.pow 2 t.toNat ≤ num * Nat.pow 2 (-t).toNat
  let q := max ((if reached then t else t - 1) - 52) (-1074)
  let significand := roundDiv (num * Nat.pow 2 (-q).toNat) (den * Nat.pow 2 q.toNat)
  let bits := (q + 1074).toNat * Double.hiddenBit + significand
  if bits < 2047 * Double.hiddenBit then some bits else none

/-- The number of decimal digits of a number, and one for zero. -/
def digitCount (n : Nat) : Nat :=
  (Nat.toDigits 10 n).length

/-- The double nearest to `± n · 10 ^ e`; `none` beyond the largest one. Far outside the range of
doubles the answer does not depend on the digits. -/
def nearest? (negative : Bool) (n : Nat) (e : Int) : Option Double :=
  let sign := if negative then Double.signBit else 0
  let magnitude : Option Nat :=
    if n = 0 then some 0
    else
      let leading := e + digitCount n
      if leading < -400 then some 0
      else if 400 < leading then none
      else bitsOfRatio? (n * Nat.pow 10 e.toNat) (Nat.pow 10 (-e).toNat)
  magnitude.map fun bits => ⟨UInt64.ofNat (sign + bits)⟩

end Telemetry.Decimal

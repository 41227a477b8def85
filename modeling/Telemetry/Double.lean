/-!
# Doubles as bit patterns

A 64-bit IEEE-754 number is carried as its bits, so that a value, the payload of a NaN and the sign of
a zero included, is what was read, and equality of values is equality of bits. The only arithmetic the
codec needs is the difference of two doubles.

A finite double is `± significand · 2 ^ (exponent - 1075)` with the fields below (`exponent` at least
one, the hidden bit added unless the stored exponent is zero).
-/

namespace Telemetry

/-- A 64-bit floating point number, held as its bits: from the top the sign, eleven bits of exponent, and fifty-two of
fraction. -/
structure Double where
  bits : UInt64
  deriving DecidableEq, Repr, Inhabited

namespace Double

/-- The value of the highest bit, which tells the sign. -/
def signBit : Nat := 0x8000000000000000

/-- The value of the bit above the fraction, which is not stored: `2 ^ 52`. -/
def hiddenBit : Nat := 0x10000000000000

/-- Whether the sign bit is set. -/
def isNegative (d : Double) : Bool :=
  d.bits.toNat / signBit == 1

/-- The stored exponent, `0` to `2047`. -/
def storedExponent (d : Double) : Nat :=
  d.bits.toNat / hiddenBit % 2048

/-- The stored fraction, below the hidden bit. -/
def fraction (d : Double) : Nat :=
  d.bits.toNat % hiddenBit

/-- Neither an infinity nor a NaN. -/
def isFinite (d : Double) : Bool :=
  d.storedExponent != 2047

/-- Not a number: the largest exponent with a fraction. -/
def isNaN (d : Double) : Bool :=
  d.storedExponent == 2047 && d.fraction != 0

/-- Either zero. -/
def isZero (d : Double) : Bool :=
  d.bits.toNat % signBit == 0

/-- The integer significand of a finite double. -/
def significand (d : Double) : Nat :=
  if d.storedExponent = 0 then d.fraction else hiddenBit + d.fraction

/-- The biased exponent of the significand's unit: the unit is `2 ^ (exponent - 1075)`. -/
def exponent (d : Double) : Nat :=
  if d.storedExponent = 0 then 1 else d.storedExponent

/-- Equality of numbers: a NaN equals nothing, and the two zeros are equal. -/
def equals (a b : Double) : Bool :=
  !a.isNaN && !b.isNaN && (a.bits == b.bits || a.isZero && b.isZero)

/-- The correctly rounded difference. -/
def sub (a b : Double) : Double :=
  ⟨(Float.ofBits a.bits - Float.ofBits b.bits).toBits⟩

instance : Sub Double := ⟨sub⟩

/-- The bits as the signed word a series stores. -/
def toInt64 (d : Double) : Int64 :=
  d.bits.toInt64

/-- The double with the bits of a signed word. -/
def ofInt64 (n : Int64) : Double :=
  ⟨n.toUInt64⟩

@[simp] theorem ofInt64_toInt64 (d : Double) : ofInt64 d.toInt64 = d := by
  simp [ofInt64, toInt64]

@[simp] theorem toInt64_ofInt64 (n : Int64) : (ofInt64 n).toInt64 = n := by
  simp [ofInt64, toInt64]

end Double

end Telemetry

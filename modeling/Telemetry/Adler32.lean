import Telemetry.Bytes

/-!
# Adler-32

The check at the end of a zlib stream: two sums modulo 65521, the second of the first's values.
-/

namespace Telemetry.Adler32

/-- The two running sums: one more than the sum of the bytes, and the sum of the values that the first has had. -/
structure Sums where
  low : Nat
  high : Nat

/-- The sums of no bytes. -/
def Sums.start : Sums := ⟨1, 0⟩

/-- The sums after one more byte. -/
def Sums.add (s : Sums) (b : UInt8) : Sums :=
  let low := (s.low + b.toNat) % 65521
  ⟨low, (s.high + low) % 65521⟩

/-- The check as a number below `2 ^ 32`. -/
def Sums.value (s : Sums) : Nat :=
  s.high * 65536 + s.low

/-- The check of a byte string. -/
def checksum (bytes : Bytes) : Nat :=
  (bytes.foldl Sums.add Sums.start).value

end Telemetry.Adler32

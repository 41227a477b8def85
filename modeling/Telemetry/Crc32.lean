import Telemetry.Bytes

/-!
# CRC-32

The 32-bit cyclic redundancy check with the reflected polynomial `0xEDB88320`, a register that starts
with all bits set and a final complement. It guards every record of a stream and condenses the schema
of a sample into a fingerprint.

The register is updated a bit at a time. One shift is linear in exclusive or and can be undone, and so
is a whole byte's worth of eight; that is what makes the check sensitive to damage.
-/

namespace Telemetry.Crc32

/-- The reflected generator polynomial. -/
def polynomial : UInt32 := 0xEDB88320

/-- One shift of the register: the bit that falls off the low end decides whether the polynomial is
added. -/
def shift (register : UInt32) : UInt32 :=
  if register &&& 1 = 1 then (register >>> 1) ^^^ polynomial else register >>> 1

/-- `n` shifts of the register. -/
def shifts : (n : Nat) → UInt32 → UInt32
  | 0, register => register
  | n + 1, register => shifts n (shift register)

/-- The register after one more byte. -/
def update (register : UInt32) (byte : UInt8) : UInt32 :=
  shifts 8 (register ^^^ byte.toUInt32)

/-- The check of a byte string. -/
def checksum (bytes : Bytes) : UInt32 :=
  bytes.foldl update 0xFFFFFFFF ^^^ 0xFFFFFFFF

end Telemetry.Crc32

import Telemetry.Error

/-!
# Varints

An unsigned 64-bit number in groups of seven bits, least significant group first, one group a byte; the
high bit of a byte says that another follows. Ten bytes are enough, and the tenth has room for one bit
only. A reader accepts groups of zeros at the end, which a writer never makes.
-/

namespace Telemetry.Varint

/-- The most bytes a number takes. -/
def maxLength : Nat := 10

/-- The groups of a number, at most `more` of them with the continuation bit. -/
def groups : (more n : Nat) → Bytes
  | 0, n => [UInt8.ofNat n]
  | more + 1, n =>
    if n < 128 then [UInt8.ofNat n] else UInt8.ofNat (n % 128 + 128) :: groups more (n / 128)

/-- The bytes of a number. -/
def encode (n : UInt64) : Bytes :=
  groups (maxLength - 1) n.toNat

/-- The number at the front of the bytes when at most `left` bytes may belong to it, with the bytes
that follow the ones looked at. -/
def decodeGroups : (left : Nat) → Bytes → Except CorruptionFault Nat × Bytes
  | 0, bytes => (.error .varintOverflow, bytes)
  | _ + 1, [] => (.error .varintTruncated, [])
  | left + 1, b :: rest =>
    if b < 128 then
      if left = 0 ∧ 1 < b then (.error .varintOverflow, rest) else (.ok b.toNat, rest)
    else
      match decodeGroups left rest with
      | (.ok high, rest) => (.ok (b.toNat % 128 + 128 * high), rest)
      | (.error fault, rest) => (.error fault, rest)

/-- The number at the front of the bytes and what follows it. When there is none, what follows is what
comes after the bytes that were looked at. -/
def decode (bytes : Bytes) : Except CorruptionFault UInt64 × Bytes :=
  match decodeGroups maxLength bytes with
  | (.ok n, rest) => (.ok (UInt64.ofNat n), rest)
  | (.error fault, rest) => (.error fault, rest)

end Telemetry.Varint

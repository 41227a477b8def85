import Telemetry.Zlib.Compressor
import Telemetry.Zlib.Reach

/-!
# Compressed payloads

The body of a chunk record is a payload in compressed form: four bytes with its length, then a zlib
stream. The declared length is not trusted until the stream agrees with it, and a reader wants no more
than one byte beyond it: a stream that is broken farther on than such a reader gets is longer than
declared, and nothing else is said about it.
-/

namespace Telemetry

namespace Payload

/-- The size of the length in front of a compressed payload. -/
def lengthSize : Nat := 4

/-- The level that is used when none is asked for. -/
def defaultLevel : Nat := 6

/-- The highest level; asking for more means this one. -/
def maxLevel : Nat := 9

end Payload

/-- A compressor with the level that is asked for. -/
structure Compression where
  compressor : Compressor
  level : Nat

namespace Compression

/-- The stream of a payload. -/
def stream (z : Compression) (payload : Bytes) : Bytes :=
  z.compressor.deflate (min z.level Payload.maxLevel) payload

theorem deflates (z : Compression) (payload : Bytes) : Zlib.Deflates (z.stream payload) payload :=
  z.compressor.deflates _ _

end Compression

namespace Payload

/-- A payload in compressed form, unless its length does not fit in front. -/
def compress (z : Compression) (payload : Bytes) : Except StreamFault Bytes :=
  if payload.length < UInt32.size then .ok (Bytes.ofNat lengthSize payload.length ++ z.stream payload)
  else .error (.payloadTooLarge payload.length)

/-- The payload that the bytes hold in compressed form. -/
def decompress (bytes : Bytes) : Except Error Bytes :=
  match bytes.readWord? lengthSize with
  | none => .error (.invalidFormat .payloadTooShort)
  | some (declared, stream) =>
    if maxPayloadSize < declared then .error (.corruption (.payloadTooLong declared))
    else
      let inflation := Zlib.inflate stream
      let mismatch : Except Error Bytes :=
        .error (.corruption (.lengthMismatch declared (min inflation.content.length (declared + 1))))
      match inflation.fault? with
      | some fault =>
        if inflation.reach stream ≤ declared then .error (.compression fault) else mismatch
      | none => if inflation.content.length = declared then .ok inflation.content else mismatch

end Payload

end Telemetry

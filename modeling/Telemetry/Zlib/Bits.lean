import Telemetry.Error

/-!
# Bytes read bit by bit

A compressed stream is read from the low end of each byte: single bits, numbers of a few bits with the
lowest first, and now and then whole bytes after the rest of the current byte has been passed over. A
stream that ends too early is incomplete, wherever that happens.
-/

namespace Telemetry.Zlib

/-- What is left of a stream: the bits of the byte that has been begun, lowest first, and the bytes after it. -/
structure Bits where
  pending : List Bool
  rest : Bytes

/-- The eight bits of a byte, lowest first. -/
def bitsOfByte (b : UInt8) : List Bool :=
  (List.range 8).map fun i => b.toNat.testBit i

namespace Bits

/-- A stream of which nothing has been read. -/
def ofBytes (bytes : Bytes) : Bits :=
  ⟨[], bytes⟩

/-- How many bits are left. -/
def length (s : Bits) : Nat :=
  s.pending.length + 8 * s.rest.length

/-- The next bit. -/
def next : Bits → Except StreamFault (Bool × Bits)
  | ⟨bit :: pending, rest⟩ => .ok (bit, ⟨pending, rest⟩)
  | ⟨[], b :: rest⟩ =>
    match bitsOfByte b with
    | bit :: pending => .ok (bit, ⟨pending, rest⟩)
    | [] => .error .incomplete
  | ⟨[], []⟩ => .error .incomplete

/-- The number in the next `width` bits, lowest first. -/
def number : (width : Nat) → Bits → Except StreamFault (Nat × Bits)
  | 0, s => .ok (0, s)
  | width + 1, s => do
    let (bit, s) ← s.next
    let (high, s) ← number width s
    .ok (bit.toNat + 2 * high, s)

/-- The next `n` whole bytes; what is left of the current byte is passed over. -/
def bytes (n : Nat) (s : Bits) : Except StreamFault (Bytes × Bits) :=
  match s.rest.split? n with
  | some (front, rest) => .ok (front, ⟨[], rest⟩)
  | none => .error .incomplete

end Bits

end Telemetry.Zlib

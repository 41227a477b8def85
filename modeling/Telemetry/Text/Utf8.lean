import Telemetry.Bytes

/-!
# UTF-8 texts in byte strings

Whether bytes are the UTF-8 form of a text is decided by the text type itself. What this module adds is
*where* bytes that are none go wrong, because a refusal names the place: how many bytes from the start
are whole characters, and how many of the following bytes fit the beginning of a character before the
one that does not, unless the bytes simply end there.

## Shape of the scan

The first byte of a character says what ranges the bytes after it must fall in (`tails?`). `fault?`
walks the bytes with the ranges still owed, the start of the character it stands in, and its own
position.
-/

namespace Telemetry

/-- Where bytes stop being UTF-8: the length of the longest front made of whole characters, and how many bytes of the
next character are acceptable, at least one; `none` when the bytes end inside a character. -/
structure Utf8Fault where
  index : Nat
  length? : Option Nat
  deriving DecidableEq, Repr

namespace Utf8

/-- A byte that may follow any first byte. -/
def tail : UInt8 × UInt8 := (0x80, 0xBF)

/-- The ranges of the bytes that follow a first byte; `none` for a byte no character starts with. -/
def tails? (first : UInt8) : Option (List (UInt8 × UInt8)) :=
  if first ≤ 0x7F then some []
  else if first ≤ 0xC1 then none
  else if first ≤ 0xDF then some [tail]
  else if first = 0xE0 then some [(0xA0, 0xBF), tail]
  else if first = 0xED then some [(0x80, 0x9F), tail]
  else if first ≤ 0xEF then some [tail, tail]
  else if first = 0xF0 then some [(0x90, 0xBF), tail, tail]
  else if first ≤ 0xF3 then some [tail, tail, tail]
  else if first = 0xF4 then some [(0x80, 0x8F), tail, tail]
  else none

/-- The first fault of the bytes that stand at `position`, inside a character that began at `start` if
ranges are still owed. -/
def fault? : (owed : List (UInt8 × UInt8)) → (start position : Nat) → Bytes → Option Utf8Fault
  | [], _, _, [] => none
  | _ :: _, start, _, [] => some ⟨start, none⟩
  | [], _, position, b :: rest =>
    match tails? b with
    | none => some ⟨position, some 1⟩
    | some owed => fault? owed position (position + 1) rest
  | (low, high) :: owed, start, position, b :: rest =>
    if low ≤ b ∧ b ≤ high then fault? owed start (position + 1) rest
    else some ⟨start, some (position - start)⟩

/-- The text whose UTF-8 form the bytes are. -/
def decode (bytes : Bytes) : Except Utf8Fault String :=
  match String.fromUTF8? ⟨bytes.toArray⟩ with
  | some s => .ok s
  | none => .error ((fault? [] 0 0 bytes).getD ⟨0, none⟩)

end Utf8

end Telemetry

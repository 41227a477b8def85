import Telemetry.Crc32
import Telemetry.Document.Binary

/-!
# Records: the frames of a stream

A stream is a sequence of records. A record is the length of its frame, four bytes, and the frame: a
byte for the kind, the body, and the CRC-32 of both. There are two kinds, metadata documents and chunks.

`Record.ofFrame` judges a frame that is there as a whole; `Record.decode` finds the frame at the front
of bytes in memory. Reading from a source that delivers bytes bit by bit has a module of its own.
-/

namespace Telemetry

/-- What a record holds: a metadata document, or a chunk in compressed form. -/
inductive RecordKind where
  | metadata
  | chunk
  deriving DecidableEq, Repr

namespace RecordKind

/-- The byte that stands for a kind. -/
def byte : RecordKind → UInt8
  | .metadata => 0
  | .chunk => 1

/-- The kind that a byte stands for. -/
def ofByte? : UInt8 → Option RecordKind
  | 0 => some .metadata
  | 1 => some .chunk
  | _ => none

end RecordKind

/-- One record of a stream: what it holds, and its content. -/
structure Record where
  kind : RecordKind
  body : Bytes
  deriving DecidableEq, Repr

namespace Record

/-- A record that holds a metadata document. -/
def ofMetadata (d : Document) : Except Error Record :=
  match Document.encode d with
  | .ok body => .ok ⟨.metadata, body⟩
  | .error fault => .error (.serialization fault)

/-- A record that holds a chunk in compressed form. -/
def ofChunk (body : Bytes) : Record :=
  ⟨.chunk, body⟩

/-! ## Writing -/

/-- The kind and the body, which the check covers. -/
def content (r : Record) : Bytes :=
  r.kind.byte :: r.body

/-- The frame: what the length in front counts. -/
def frame (r : Record) : Bytes :=
  r.content ++ Bytes.ofNat 4 (Crc32.checksum r.content).toNat

/-- The bytes of a record. -/
def encode (r : Record) : Bytes :=
  Bytes.ofNat 4 r.frame.length ++ r.frame

/-! ## Reading -/

/-- The size of the length in front of a frame. -/
def lengthSize : Nat := 4

/-- The smallest frame: a kind and a check. -/
def minFrame : Nat := 5

/-- The record in a frame: the check is held against the content before the kind is looked at. -/
def ofFrame (frame : Bytes) : Except Error Record :=
  if frame.length < minFrame then .error (.invalidFormat .recordTooShort)
  else
    -- four bytes of check at the end, and a content of at least the kind before them
    let (content, trailer) := frame.splitAt (frame.length - 4)
    let stored := UInt32.ofNat (Bytes.toNat trailer)
    let computed := Crc32.checksum content
    if stored ≠ computed then .error (.checksumMismatch stored computed)
    else
      match content with
      | [] => .error (.invalidFormat .recordTooShort)
      | byte :: body =>
        match RecordKind.ofByte? byte with
        | some kind => .ok ⟨kind, body⟩
        | none => .error (.invalidFormat (.recordKind byte))

/-- The record at the front of the bytes, and how many bytes it takes. -/
def decode (bytes : Bytes) : Except Error (Record × Nat) :=
  match bytes.readWord? lengthSize with
  | none => .error (.invalidFormat .recordTooShort)
  | some (length, rest) =>
    match rest.split? length with
    | none => .error (.invalidFormat .recordIncomplete)
    | some (frame, _) =>
      match ofFrame frame with
      | .ok r => .ok (r, lengthSize + length)
      | .error e => .error e

end Record

end Telemetry

import Telemetry.Json
import Telemetry.Metric
import Telemetry.Text.Utf8

/-!
# Errors and their causes

Every refusal of the library is a value that says what was wrong; its wording is in one place,
`Error.message`. Causes are grouped as they are reported: a malformed frame (`FormatFault`), bytes that
contradict themselves (`CorruptionFault`), a broken compressed stream (`StreamFault`), a document that
cannot be written or read (`EncodingFault`), and what a background worker could not do
(`BackgroundFault`).

Two questions are asked of an error: does the sample not fit the schema (`isSchema`), and is the stream
malformed (`isCorruption`).
-/

namespace Telemetry

/-! ## Limits -/

/-- The largest record a reader accepts, in bytes. -/
def maxRecordSize : Nat := 64 * 1024 * 1024

/-- The largest inflated chunk payload a reader accepts, in bytes. -/
def maxPayloadSize : Nat := 256 * 1024 * 1024

/-- The most metric values, metrics times deltas, that a chunk may hold. -/
def maxChunkValues : Nat := 16 * 1024 * 1024

/-! ## Causes -/

/-- A frame that does not have the form it should. A length that is declared can fail to cover its own prefix, be
longer than what is there, or go beyond `maxRecordSize`; a sample can be asked for that a chunk does not have. -/
inductive FormatFault where
  | documentTooShort
  | documentLength (declared : Nat)
  | documentTruncated (declared available : Nat)
  | recordTooShort
  | recordIncomplete
  | recordHeaderTruncated
  | recordTooLong (length : Nat)
  | recordKind (byte : UInt8)
  | payloadTooShort
  | chunkHeaderTruncated
  | sampleIndex (index count : Nat)
  deriving DecidableEq, Repr

/-- Why a document cannot be written or read: the bytes end inside an item of fixed size (`unexpectedEnd`) or of a
text, a byte or a tag stands for nothing, a text is not UTF-8, a length does not fit its prefix, or a JSON value
stands where an object should. -/
inductive EncodingFault where
  | unexpectedEnd
  | textTooLong
  | badBoolean (byte : UInt8)
  | badVariant (tag : Nat)
  | badText (fault : Utf8Fault)
  | documentTooLarge (size : Nat)
  | notAnObject (found : Json.Kind)
  deriving DecidableEq, Repr

/-- What can be wrong with the bytes of a document: its frame or its body. -/
inductive DocumentFault where
  | format (fault : FormatFault)
  | encoding (fault : EncodingFault)
  deriving DecidableEq, Repr

/-- Bytes that are well framed but contradict themselves: a varint that ends too soon or does not fit 64 bits, more
values than a chunk may hold, a run of zeros longer than its column, an inflated length beyond `maxPayloadSize` or
other than declared, and a reference sample that cannot be read or has other metrics than there are series. -/
inductive CorruptionFault where
  | varintTruncated
  | varintOverflow
  | tooManyValues (metrics deltas : Nat)
  | zeroRun (metric excess : Nat)
  | payloadTooLong (declared : Nat)
  | lengthMismatch (declared got : Nat)
  | reference (fault : DocumentFault)
  | metricCount (held declared : Nat)
  | metricsExhausted
  | valueMissing (key : String) (index : Nat)
  | metricsUnused (used total : Nat)
  deriving DecidableEq, Repr

/-- A compressed stream that ends before it is complete, or is not of its format or fails its check; or a payload
whose length does not fit its prefix. -/
inductive StreamFault where
  | incomplete
  | corrupt
  | payloadTooLarge (size : Nat)
  deriving DecidableEq, Repr

/-- What a collector with a background worker reports: a sample was offered after it was closed, or when the worker
was gone, or the worker could not add samples, for the reasons given in order. -/
inductive BackgroundFault where
  | closed
  | workerExited
  | rejected (messages : List String)
  deriving DecidableEq, Repr

/-- Why an operation was refused.

A sample has another number of metrics than the chunk, a metric of another type at a position, or comes when the chunk
holds as many deltas as it may. A chunk is asked for before there is any sample. What else is wrong has a cause, or
the words of the source or sink that failed. -/
inductive Error where
  | io (words : String)
  | schemaMismatch (sample current previous : Nat)
  | typeMismatch (index : Nat) (current previous : MetricType)
  | overfull (max : Nat)
  | noReference
  | corruption (fault : CorruptionFault)
  | checksumMismatch (stored computed : UInt32)
  | invalidFormat (fault : FormatFault)
  | compression (fault : StreamFault)
  | serialization (fault : EncodingFault)
  | background (fault : BackgroundFault)
  | cancelled
  deriving DecidableEq, Repr

/-- A fault in a document that stands by itself. -/
def DocumentFault.toError : DocumentFault → Error
  | .format fault => .invalidFormat fault
  | .encoding fault => .serialization fault

/-! ## Wording -/

/-- The wording of a malformed frame. -/
def FormatFault.message : FormatFault → String
  | .documentTooShort => "Document too short"
  | .documentLength declared => s!"Invalid document length: {declared}"
  | .documentTruncated declared available =>
    s!"Document truncated: declared {declared} bytes, {available} available"
  | .recordTooShort => "Record too short"
  | .recordIncomplete => "Incomplete record"
  | .recordHeaderTruncated => "Truncated record header"
  | .recordTooLong length => s!"Record length {length} exceeds limit {maxRecordSize}"
  | .recordKind byte => s!"Invalid record kind: {byte.toNat}"
  | .payloadTooShort => "Chunk payload too short"
  | .chunkHeaderTruncated => "Chunk header truncated"
  | .sampleIndex index count => s!"sample index {index} out of range for chunk of {count}"

/-- The wording of a text that is not UTF-8. -/
def Utf8Fault.message (fault : Utf8Fault) : String :=
  match fault.length? with
  | some n => s!"invalid utf-8 sequence of {n} bytes from index {fault.index}"
  | none => s!"incomplete utf-8 byte sequence from index {fault.index}"

/-- The wording of a document that cannot be written or read. -/
def EncodingFault.message : EncodingFault → String
  | .unexpectedEnd => "io error: unexpected end of file"
  | .textTooLong => "io error: "
  | .badBoolean byte => s!"invalid u8 while decoding bool, expected 0 or 1, found {byte.toNat}"
  | .badVariant tag => s!"invalid value: integer `{tag}`, expected variant index 0 <= i < 12"
  | .badText fault => s!"string is not valid utf8: {fault.message}"
  | .documentTooLarge size => s!"document too large: {size} bytes"
  | .notAnObject found => s!"expected a map, got {found.name}"

/-- The wording of a fault in a document. -/
def DocumentFault.message : DocumentFault → String
  | .format fault => s!"Invalid format: {fault.message}"
  | .encoding fault => s!"Serialization error: {fault.message}"

/-- The wording of bytes that contradict themselves. -/
def CorruptionFault.message : CorruptionFault → String
  | .varintTruncated => "truncated varint"
  | .varintOverflow => "varint overflows 64 bits"
  | .tooManyValues metrics deltas =>
    s!"{metrics} metrics by {deltas} deltas exceeds the chunk limit of {maxChunkValues} values"
  | .zeroRun metric excess => s!"zero run overflows metric {metric} by {excess} samples"
  | .payloadTooLong declared =>
    s!"declared uncompressed length {declared} exceeds limit {maxPayloadSize}"
  | .lengthMismatch declared got =>
    s!"uncompressed length mismatch: declared {declared}, got {got}"
  | .reference fault => s!"invalid reference sample: {fault.message}"
  | .metricCount held declared =>
    s!"metric count mismatch: reference has {held}, payload declares {declared}"
  | .metricsExhausted => "reference sample has more metrics than the chunk"
  | .valueMissing key index => s!"metric {key} has no value for sample {index}"
  | .metricsUnused used total => s!"reference sample uses {used} of {total} metrics"

/-- The wording of a broken compressed stream. -/
def StreamFault.message : StreamFault → String
  | .incomplete => "incomplete deflate stream"
  | .corrupt => "corrupt deflate stream"
  | .payloadTooLarge size => s!"payload too large: {size} bytes"

/-- The wording of a background failure; the messages of rejected samples are joined in order. -/
def BackgroundFault.message : BackgroundFault → String
  | .closed => "buffered collector is closed"
  | .workerExited => "worker thread exited"
  | .rejected messages => "; ".intercalate messages

/-- The wording of an error. -/
def Error.message : Error → String
  | .io words => s!"IO error: {words}"
  | .schemaMismatch sample current previous =>
    s!"unexpected schema change detected for sample {sample}: " ++
      s!"[current={current} vs previous={previous}]"
  | .typeMismatch index current previous =>
    s!"metric type changed at position {index}: " ++
      s!"[current={current.name} vs previous={previous.name}]"
  | .overfull max => s!"collector is overfull (max {max} deltas)"
  | .noReference => "no reference document"
  | .corruption fault => s!"Data corruption: {fault.message}"
  | .checksumMismatch stored computed =>
    s!"Checksum mismatch: expected {stored.toNat}, got {computed.toNat}"
  | .invalidFormat fault => s!"Invalid format: {fault.message}"
  | .compression fault => s!"Compression error: {fault.message}"
  | .serialization fault => s!"Serialization error: {fault.message}"
  | .background fault => s!"Background worker error: {fault.message}"
  | .cancelled => "operation cancelled"

/-! ## Classes -/

/-- The sample does not fit the schema of the open chunk. -/
def Error.isSchema : Error → Bool
  | .schemaMismatch _ _ _ => true
  | .typeMismatch _ _ _ => true
  | _ => false

/-- The stream is malformed. -/
def Error.isCorruption : Error → Bool
  | .corruption _ => true
  | .checksumMismatch _ _ => true
  | .invalidFormat _ => true
  | .compression _ => true
  | _ => false

end Telemetry

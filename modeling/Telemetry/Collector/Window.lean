import Telemetry.Collector
import Telemetry.Delta
import Telemetry.Payload
import Telemetry.Record

/-!
# One chunk in the making

A window holds a reference sample and the deltas of the samples after it, up to a fixed number. Every
sample must have as many metrics as the one before it, and of the same types; a sample that has not is
refused and leaves no trace.

The deltas lie in a flat buffer, a column of fixed length for every metric, and each sample fills one
slot of every column. A buffer is as long here as it is asked for. There may be no room for a long one, and
the sample that asks for it is then not added, with no answer at all; whether there is room is for those to
see who ask for long buffers (`Stack.longestBuffer`).
-/

namespace Telemetry

/-- A chunk that is being collected: the first sample as its reference, the readings of the last one, and the deltas
of the `count` samples after the first, in columns of `maxDeltas` slots. A metadata document may stand ahead of it. -/
structure Window where
  maxDeltas : Nat
  compression : Compression
  metadata? : Option Document
  reference? : Option Document
  last : List Reading
  deltas : Delta.Buffer
  count : Nat

namespace Window

/-- A window without samples. -/
def empty (maxDeltas : Nat) (z : Compression) : Window :=
  { maxDeltas, compression := z, metadata? := none, reference? := none, last := [], deltas := .zeros 0, count := 0 }

/-- Whether no further sample can be taken. -/
def isFull (w : Window) : Bool :=
  w.reference?.isSome && w.maxDeltas ≤ w.count

/-- How much the window holds. -/
def info (w : Window) : Info :=
  if w.reference?.isSome then ⟨w.count + 1, w.last.length⟩ else .zero

/-- The window without samples and metadata. -/
def reset (w : Window) : Window :=
  empty w.maxDeltas w.compression

/-- The window with a metadata document. -/
def setMetadata (d : Document) (w : Window) : Window :=
  { w with metadata? := some d }

/-! ## Taking samples -/

/-- The first position at which the types of two lists of readings differ, with both types. -/
def typeChange? (index : Nat) :
    (current previous : List Reading) → Option (Nat × MetricType × MetricType)
  | a :: current, b :: previous =>
    if a.type = b.type then typeChange? (index + 1) current previous
    else some (index, a.type, b.type)
  | _, _ => none

/-- Why the readings of a sample do not fit the window. -/
def schemaError? (w : Window) (current : List Reading) : Option Error :=
  if current.length ≠ w.last.length then
    some (.schemaMismatch (w.count + 1) current.length w.last.length)
  else
    (typeChange? 0 current w.last).map fun (index, a, b) => .typeMismatch index a b

/-- The deltas with one more for every column, that from the last sample to the current one. -/
def recordDeltas (w : Window) (current : List Reading) : Delta.Buffer :=
  ((current.zip w.last).zipIdx).foldl
    (fun buffer ((a, b), metric) =>
      buffer.set (Delta.offset w.maxDeltas w.count metric) (a.quantity.delta b.quantity))
    w.deltas

/-- Take a sample: the first becomes the reference, and every other adds a delta to each column. -/
def add (sample : Document) (w : Window) : Except Error Unit × Window :=
  let current := Document.readings sample
  match w.reference? with
  | none =>
    -- the number of columns is known only now
    (.ok (), { w with
      reference? := some sample
      last := current
      deltas := .zeros (w.maxDeltas * current.length) })
  | some _ =>
    if w.maxDeltas ≤ w.count then (.error (.overfull w.maxDeltas), w)
    else
      match w.schemaError? current with
      | some e => (.error e, w)
      | none =>
        (.ok (), { w with
          deltas := w.recordDeltas current
          last := current
          count := w.count + 1 })

/-! ## Giving them back -/

/-- The payload of the chunk, before compression. -/
def payload (w : Window) : Except Error Bytes :=
  match w.reference? with
  | none => .error .noReference
  | some reference =>
    match Document.encode reference with
    | .error fault => .error (.serialization fault)
    | .ok bytes =>
      .ok (bytes ++ Bytes.ofNat 4 w.last.length ++ Bytes.ofNat 4 w.count ++
        Delta.encode w.deltas.get w.maxDeltas w.last.length w.count)

/-- The payload of the chunk in compressed form. -/
def body (w : Window) : Except Error Bytes :=
  match w.payload with
  | .error e => .error e
  | .ok payload =>
    match Payload.compress w.compression payload with
    | .error fault => .error (.compression fault)
    | .ok body => .ok body

/-- The metadata record, if there is one, as bytes. -/
def metadataBytes (w : Window) : Except Error Bytes :=
  match w.metadata? with
  | none => .ok []
  | some d =>
    match Record.ofMetadata d with
    | .error e => .error e
    | .ok r => .ok r.encode

/-- The records of the window: its metadata document, if there is one, and its chunk. -/
def resolve (w : Window) : Except Error Bytes :=
  match w.body with
  | .error e => .error e
  | .ok body =>
    match w.metadataBytes with
    | .error e => .error e
    | .ok front => .ok (front ++ (Record.ofChunk body).encode)

instance : Collector Window where
  setMetadata := setMetadata
  add := add
  resolve w := (w.resolve, w)
  reset := reset
  info := info

end Window

end Telemetry

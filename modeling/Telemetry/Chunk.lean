import Telemetry.Delta
import Telemetry.Payload
import Telemetry.Record

/-!
# Chunks: decoded windows of samples

A chunk is the first sample of a window, its reference, and one series of values for each of its
metrics. The payload of a chunk record holds the reference as a document, the number of metrics, the
number of deltas, and the deltas column by column; a value of a series is the reference's value plus the
deltas up to it.

The number of metrics is told twice, by the reference and by the payload, and the two must agree.
-/

namespace Telemetry

/-! ## Series -/

/-- A metric that a reference sample defines, before its values are known: the key segments that lead to it from the
root, its type, and its value in the reference sample. -/
structure SeriesHead where
  path : List String
  type : MetricType
  start : Int64

/-- One numeric series of a chunk, with a value for each sample. -/
structure Series extends SeriesHead where
  values : Array Int64

/-- The dotted key, such as `a.b.0.c`. -/
def SeriesHead.key (s : SeriesHead) : String :=
  ".".intercalate s.path

/-- The words with which the series of a metric-bearing value start. -/
def Value.starts : Value → List Int64
  | .boolean b => [if b then 1 else 0]
  | .int32 n => [n.toInt64]
  | .int64 n => [n]
  | .double d => [d.toInt64]
  | .date millis => [millis]
  | .timestamp seconds increment => [wordOfHalf seconds, wordOfHalf increment]
  | _ => []

/-- The series that a reference sample defines, in traversal order. -/
def Document.schema (d : Document) : List SeriesHead :=
  (Document.metricFields d).flatMap fun f =>
    f.value.starts.map fun start => { path := f.path, type := f.type, start }

/-! ## Chunks -/

/-- A decoded window of samples: the first one, the metadata document in force where the chunk was read, the series in
traversal order of the first, and how many samples follow it. -/
structure Chunk where
  reference : Document
  metadata? : Option Document
  series : List Series
  deltas : Nat

namespace Chunk

/-- How many samples the chunk has; never none. -/
def length (c : Chunk) : Nat :=
  c.deltas + 1

/-- The first date of the reference sample, in milliseconds. -/
def startTime? (c : Chunk) : Option Int64 :=
  (c.series.find? fun s => s.type = .date).map (·.start)

/-- The chunk that a payload holds. Bytes after the deltas are ignored. -/
def ofPayload (metadata? : Option Document) (payload : Bytes) : Except Error Chunk :=
  match Document.decode payload with
  | .error fault => .error (.corruption (.reference fault))
  | .ok (reference, used) =>
    match Bytes.split? 8 (payload.drop used) with
    | none => .error (.invalidFormat .chunkHeaderTruncated)
    | some (counts, stream) =>
      let metrics := Bytes.toNat (counts.take 4)
      let deltas := Bytes.toNat (counts.drop 4)
      let heads := Document.schema reference
      if heads.length ≠ metrics then
        .error (.corruption (.metricCount heads.length metrics))
      else
        match Delta.decode metrics deltas stream with
        | .error fault => .error (.corruption fault)
        | .ok (columns, _) =>
          let series : List Series := (heads.zip columns).map fun (head, column) =>
            { toSeriesHead := head, values := Delta.runningSums head.start column }
          .ok { reference, metadata?, series, deltas }

/-- The chunk in the body of a record, with the metadata document in force there. -/
def ofBody (metadata? : Option Document) (body : Bytes) : Except Error Chunk :=
  match Payload.decompress body with
  | .ok payload => ofPayload metadata? payload
  | .error e => .error e

end Chunk

end Telemetry

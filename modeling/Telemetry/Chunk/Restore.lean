import Telemetry.Chunk

/-!
# Samples restored from a chunk

A chunk gives its samples back in three shapes.

* *Structured*: the reference with its metric leaves replaced by the values of one sample. Everything
  that is no metric is the reference's.
* *Flattened*: one field for each metric-bearing field, under its dotted key.
* *Matrix*: the same keys, each with the array of its values over the whole chunk.

The structured shape walks the reference and takes the series in turn; the other two walk the series
alone and have to put the halves of a timestamp together again (`pairTimestamps`).
-/

namespace Telemetry

/-! ## Words back to values -/

/-- The value that a word of a series of the given type stands for. A half of a timestamp by itself is
an integer. -/
def MetricType.restore (type : MetricType) (word : Int64) : Value :=
  match type with
  | .boolean => .boolean (word != 0)
  | .int32 => .int32 word.toInt32
  | .int64 => .int64 word
  | .double => .double (Double.ofInt64 word)
  | .date => .date word
  | .timestamp => .int64 word

/-- The timestamp with the given halves, as words. -/
def restoreTimestamp (seconds increment : Int64) : Value :=
  .timestamp seconds.toUInt64.toUInt32 increment.toUInt64.toUInt32

/-- The value of a series at a sample, in the type of the series. -/
def Series.valueAt? (s : Series) (index : Nat) : Option Value :=
  s.values[index]?.map s.type.restore

namespace Chunk

/-! ## Structured -/

/-- The word of the next series at a sample, and the series after it. -/
def takeWord (index : Nat) : List Series → Except Error (Int64 × List Series)
  | [] => .error (.corruption .metricsExhausted)
  | s :: rest =>
    match s.values[index]? with
    | some word => .ok (word, rest)
    | none => .error (.corruption (.valueMissing s.key index))

mutual

/-- A value of the reference with its metrics replaced by the values of a sample, and the series that
are left for what follows. -/
def restoreValue (index : Nat) : Value → List Series → Except Error (Value × List Series)
  | .document fields, series => do
    let (fields, series) ← restoreFields index fields series
    .ok (.document fields, series)
  | .array items, series => do
    let (items, series) ← restoreItems index items series
    .ok (.array items, series)
  | .timestamp _ _, series => do
    let (seconds, series) ← takeWord index series
    let (increment, series) ← takeWord index series
    .ok (restoreTimestamp seconds increment, series)
  | v, series =>
    match v.metricType? with
    | some type => do
      let (word, series) ← takeWord index series
      .ok (type.restore word, series)
    | none => .ok (v, series)

/-- The fields of a document, restored in order. -/
def restoreFields (index : Nat) :
    List (String × Value) → List Series → Except Error (List (String × Value) × List Series)
  | [], series => .ok ([], series)
  | (key, v) :: rest, series => do
    let (v, series) ← restoreValue index v series
    let (rest, series) ← restoreFields index rest series
    .ok ((key, v) :: rest, series)

/-- The items of an array, restored in order. -/
def restoreItems (index : Nat) :
    List Value → List Series → Except Error (List Value × List Series)
  | [], series => .ok ([], series)
  | v :: rest, series => do
    let (v, series) ← restoreValue index v series
    let (rest, series) ← restoreItems index rest series
    .ok (v :: rest, series)

end

/-- The reference with its metrics replaced by the values of a sample; every series has to be used. -/
def restore (reference : Document) (series : List Series) (index : Nat) : Except Error Document := do
  let (d, left) ← restoreFields index reference series
  if left.isEmpty then .ok d
  else .error (.corruption (.metricsUnused (series.length - left.length) series.length))

/-- Sample `index` of the chunk, in the shape of the reference. -/
def structured (c : Chunk) (index : Nat) : Except Error Document :=
  if c.length ≤ index then .error (.invalidFormat (.sampleIndex index c.length))
  else restore c.reference c.series index

/-! ## Flattened and matrix -/

/-- The series of one field: one, or both halves of a timestamp. -/
inductive FieldSeries where
  | single (s : Series)
  | halves (seconds increment : Series)

/-- The series, grouped by field: two timestamp series in a row with one path are the halves of one
timestamp. -/
def pairTimestamps : List Series → List FieldSeries
  | [] => []
  | [s] => [.single s]
  | s :: t :: rest =>
    if s.type = .timestamp ∧ t.type = .timestamp ∧ t.path = s.path then
      .halves s t :: pairTimestamps rest
    else .single s :: pairTimestamps (t :: rest)

namespace FieldSeries

/-- The dotted key of the field. -/
def key : FieldSeries → String
  | .single s => s.key
  | .halves s _ => s.key

/-- The value of the field at a sample. -/
def valueAt (index : Nat) : FieldSeries → Value
  | .single s => s.type.restore (s.values.getD index 0)
  | .halves s t => restoreTimestamp (s.values.getD index 0) (t.values.getD index 0)

/-- The values of the field over the whole chunk. -/
def values : FieldSeries → List Value
  | .single s => s.values.toList.map s.type.restore
  | .halves s t => List.zipWith restoreTimestamp s.values.toList t.values.toList

end FieldSeries

/-- Sample `index` of the chunk as a document of dotted keys. -/
def flattened (c : Chunk) (index : Nat) : Except Error Document :=
  if c.length ≤ index then .error (.invalidFormat (.sampleIndex index c.length))
  else .ok ((pairTimestamps c.series).map fun f => (f.key, f.valueAt index))

/-- One document for the whole chunk: each dotted key with the array of its values. -/
def matrix (c : Chunk) : Document :=
  (pairTimestamps c.series).map fun f => (f.key, .array f.values)

end Chunk

end Telemetry

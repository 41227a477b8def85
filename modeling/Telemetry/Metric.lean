import Telemetry.Document

/-!
# Metrics: the numbers in a sample

Booleans, integers, doubles, dates and timestamps are metrics; every other value is carried along
unchanged. A metric-bearing field becomes one numeric series, a timestamp two (seconds, then
increment).

## Two walks over one document

* `Document.readings` is what a sample contributes to a chunk: typed quantities in traversal order.
  Doubles stay doubles here, because their deltas are taken as numbers.
* `Document.metricFields` is what a schema is made of: each metric-bearing field once, with the key
  segments that lead to it. Arrays contribute positions as segments.

The walks are separate recursions; a chunk can be decoded only because they stay in step, a field of
type `t` in the second walk standing for `t.width` readings in the first.
-/

namespace Telemetry

/-! ## Types -/

/-- The type of a metric series; one of timestamps has either half of each. -/
inductive MetricType where
  | boolean
  | int32
  | int64
  | double
  | date
  | timestamp
  deriving DecidableEq, Repr

namespace MetricType

/-- The name under which a type is reported. -/
def name : MetricType → String
  | .boolean => "boolean"
  | .int32 => "int32"
  | .int64 => "int64"
  | .double => "double"
  | .date => "datetime"
  | .timestamp => "timestamp"

/-- How many series a field of this type produces. -/
def width : MetricType → Nat
  | .timestamp => 2
  | _ => 1

end MetricType

/-- The type of a metric-bearing value; `none` for any other. -/
def Value.metricType? : Value → Option MetricType
  | .boolean _ => some .boolean
  | .int32 _ => some .int32
  | .int64 _ => some .int64
  | .double _ => some .double
  | .date _ => some .date
  | .timestamp _ _ => some .timestamp
  | _ => none

/-! ## Readings -/

/-- A number taken from a sample: an integer, date, boolean or half of a timestamp, or a double, which stays floating
point until a delta is computed. -/
inductive Quantity where
  | integer (n : Int64)
  | double (d : Double)
  deriving DecidableEq, Repr

namespace Quantity

/-- The quantity as the signed word that a series stores; a double contributes its bits. -/
def toInt64 : Quantity → Int64
  | .integer n => n
  | .double d => d.toInt64

/-- What is stored for the step from `previous` to `current`: the bits of the difference of two
doubles, and otherwise the wrapping difference of the stored words. -/
def delta (current previous : Quantity) : Int64 :=
  match current, previous with
  | .double a, .double b => (a - b).toInt64
  | a, b => a.toInt64 - b.toInt64

end Quantity

/-- One numeric value of a sample, with the type of the series it belongs to. -/
structure Reading where
  type : MetricType
  quantity : Quantity
  deriving DecidableEq, Repr

/-- An unsigned half of a timestamp as a signed word. -/
def wordOfHalf (half : UInt32) : Int64 :=
  half.toUInt64.toInt64

mutual

/-- The readings of a value, in traversal order. -/
def Value.readings : Value → List Reading
  | .boolean b => [⟨.boolean, .integer (if b then 1 else 0)⟩]
  | .int32 n => [⟨.int32, .integer n.toInt64⟩]
  | .int64 n => [⟨.int64, .integer n⟩]
  | .double d => [⟨.double, .double d⟩]
  | .date millis => [⟨.date, .integer millis⟩]
  | .timestamp seconds increment =>
    [⟨.timestamp, .integer (wordOfHalf seconds)⟩, ⟨.timestamp, .integer (wordOfHalf increment)⟩]
  | .document fields => Document.readings fields
  | .array items => Value.readingsOfItems items
  | _ => []

/-- The readings of a document: those of its fields, in order. -/
def Document.readings : List (String × Value) → List Reading
  | [] => []
  | (_, v) :: rest => v.readings ++ Document.readings rest

/-- The readings of an array: those of its items, in order. -/
def Value.readingsOfItems : List Value → List Reading
  | [] => []
  | v :: rest => v.readings ++ Value.readingsOfItems rest

end

/-- The first date among readings, in milliseconds. -/
def firstDate? (readings : List Reading) : Option Int64 :=
  (readings.find? fun r => r.type = .date).map fun r => r.quantity.toInt64

/-! ## Fields -/

/-- A metric-bearing field of a document, with the key segments that lead to it from the root. -/
structure MetricField where
  path : List String
  value : Value
  type : MetricType

namespace MetricField

/-- The field seen from one level further out. -/
def under (segment : String) (f : MetricField) : MetricField :=
  { f with path := segment :: f.path }

/-- The dotted key, such as `a.b.0.c`. -/
def key (f : MetricField) : String :=
  ".".intercalate f.path

end MetricField

mutual

/-- The metric-bearing fields of a value, paths taken from the value itself. -/
def Value.metricFields : Value → List MetricField
  | .document fields => Document.metricFields fields
  | .array items => Value.metricFieldsFrom 0 items
  | v => match v.metricType? with
    | some type => [⟨[], v, type⟩]
    | none => []

/-- The metric-bearing fields of a document, depth first in the order of its fields. -/
def Document.metricFields : List (String × Value) → List MetricField
  | [] => []
  | (key, v) :: rest => v.metricFields.map (·.under key) ++ Document.metricFields rest

/-- The metric-bearing fields of the items of an array whose first item stands at position `i`. -/
def Value.metricFieldsFrom (i : Nat) : List Value → List MetricField
  | [] => []
  | v :: rest => v.metricFields.map (·.under (toString i)) ++ Value.metricFieldsFrom (i + 1) rest

end

end Telemetry

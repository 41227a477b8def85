import Telemetry.Bytes
import Telemetry.Double
import Telemetry.Text.Natural

/-!
# Documents: ordered, self-describing samples

A document is an ordered list of named values, possibly nested. Order is part of the data: a sample is
flattened into metrics, and rebuilt from them, by walking it depth first in the order of its fields.
A key may occur more than once; look-up by key finds the first.

## Shape of the recursion

`Value` nests lists of itself and lists of named fields, so a function over values comes as three
functions that call each other: one on values, one on lists of fields, one on lists of items. All of
them recurse on the data, here and in the modules that follow.
-/

namespace Telemetry

/-- A value of a sample. A date is in milliseconds since the start of 1970, universal time; a timestamp is in seconds,
with an ordinal within the second. -/
inductive Value where
  | boolean (b : Bool)
  | int32 (n : Int32)
  | int64 (n : Int64)
  | double (d : Double)
  | date (millis : Int64)
  | timestamp (seconds increment : UInt32)
  | text (s : String)
  | objectId (id : Vector UInt8 12)
  | binary (bytes : Bytes)
  | null
  | document (fields : List (String × Value))
  | array (items : List Value)
  deriving Inhabited

/-- An ordered list of named values; keys may repeat. -/
abbrev Document := List (String × Value)

/-! ## Numeric and textual views -/

namespace Value

/-- The integer a value holds, of either width. -/
def asInt64? : Value → Option Int64
  | .int64 n => some n
  | .int32 n => some n.toInt64
  | _ => none

/-- The double a value holds. -/
def asDouble? : Value → Option Double
  | .double d => some d
  | _ => none

/-- The text a value holds. -/
def asText? : Value → Option String
  | .text s => some s
  | _ => none

end Value

/-! ## Equality as numbers

Two documents are equal when they hold the same keys and values in the same order; doubles are
compared as numbers, so that a document with a NaN does not equal itself. -/

mutual

/-- Equality of values, doubles compared as numbers. -/
def Value.equals : Value → Value → Bool
  | .boolean a, .boolean b => a == b
  | .int32 a, .int32 b => a == b
  | .int64 a, .int64 b => a == b
  | .double a, .double b => a.equals b
  | .date a, .date b => a == b
  | .timestamp a i, .timestamp b j => a == b && i == j
  | .text a, .text b => a == b
  | .objectId a, .objectId b => a == b
  | .binary a, .binary b => a == b
  | .null, .null => true
  | .document a, .document b => Document.equals a b
  | .array a, .array b => Value.equalsAll a b
  | _, _ => false

/-- Equality of documents, field by field. -/
def Document.equals : List (String × Value) → List (String × Value) → Bool
  | [], [] => true
  | (k, v) :: a, (l, w) :: b => k == l && v.equals w && Document.equals a b
  | _, _ => false

/-- Equality of arrays, item by item. -/
def Value.equalsAll : List Value → List Value → Bool
  | [], [] => true
  | v :: a, w :: b => v.equals w && Value.equalsAll a b
  | _, _ => false

end

/-! ## Look-up -/

namespace Document

/-- The keys, in order. -/
def keys (d : Document) : List String :=
  d.map (·.1)

/-- The value of the first field with the given key. -/
def get? (d : Document) (key : String) : Option Value :=
  (d.find? fun field => field.1 == key).map (·.2)

end Document

/-- One step down: into a document by key, into an array by position, written in decimal. -/
def Value.child? (segment : List Char) : Value → Option Value
  | .document fields => Document.get? fields (String.ofList segment)
  | .array items => (natural64? segment).bind (items[·]?)
  | _ => none

/-- The segments of a dotted path; a path has one more segment than it has dots. -/
def pathSegments : List Char → List (List Char)
  | [] => [[]]
  | c :: rest =>
    if c = '.' then [] :: pathSegments rest
    else match pathSegments rest with
      | [] => [[c]]
      | segment :: more => (c :: segment) :: more

/-- The value at a dotted path such as `a.b.0.c`: the first segment is a key of the document, each
further one a key or a position below what was reached. -/
def Document.getPath? (d : Document) (path : String) : Option Value :=
  match pathSegments path.toList with
  | [] => none
  | first :: more =>
    more.foldl (fun reached segment => reached.bind (Value.child? segment)) (d.get? (String.ofList first))

end Telemetry

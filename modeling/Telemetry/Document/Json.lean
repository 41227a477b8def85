import Telemetry.Calendar
import Telemetry.Decimal.Nearest
import Telemetry.Document
import Telemetry.Json

/-!
# Documents and JSON

Three conversions.

* `Document.toJson` shows a document: numbers and texts as they are, dates as RFC 3339 text, a
  timestamp as an object, identifiers and bytes as hexadecimal text. A key that occurs twice is shown
  once, with its last value.
* `Document.ofJson?` takes a sample from a JSON object. Integers of the signed 64-bit range stay
  integers, every other number becomes a double.
* `Document.tagged` writes a document as JSON without losing types: each value under the name of its
  kind.
-/

namespace Telemetry

/-! ## Documents shown as JSON -/

mutual

/-- A value, shown as JSON. -/
def Value.toJson : Value → Json
  | .boolean b => .boolean b
  | .int32 n => .integer n.toInt
  | .int64 n => .integer n.toInt
  | .double d => if d.isFinite then .double d else .null
  | .date millis => match Calendar.text? millis.toInt with
    | some s => .text s
    | none => .integer millis.toInt
  | .timestamp seconds increment =>
    .object [("t", .integer seconds.toNat), ("i", .integer increment.toNat)]
  | .text s => .text s
  | .objectId id => .text (Bytes.hex id.toList)
  | .binary bytes => .text (Bytes.hex bytes)
  | .null => .null
  | .document fields => .object (Json.distinct (Document.membersJson fields))
  | .array items => .array (Value.itemsJson items)

/-- The fields of a document as members, in order and with repeats. -/
def Document.membersJson : List (String × Value) → List (String × Json)
  | [] => []
  | (key, v) :: rest => (key, v.toJson) :: Document.membersJson rest

/-- The items of an array, shown as JSON. -/
def Value.itemsJson : List Value → List Json
  | [] => []
  | v :: rest => v.toJson :: Value.itemsJson rest

end

/-- A document, shown as a JSON object. -/
def Document.toJson (d : Document) : Json :=
  .object (Json.distinct (Document.membersJson d))

/-! ## Documents taken from JSON -/

/-- The double nearest to an integer within the range of doubles, the even one of two equally near. -/
def Double.ofInt (n : Int) : Double :=
  (Decimal.nearest? (n < 0) n.natAbs 0).getD ⟨0⟩

mutual

/-- The value that a JSON value stands for. -/
def Value.ofJson : Json → Value
  | .null => .null
  | .boolean b => .boolean b
  | .integer n =>
    if -0x8000000000000000 ≤ n ∧ n < 0x8000000000000000 then .int64 (Int64.ofInt n) else .double (Double.ofInt n)
  | .double d => .double d
  | .text s => .text s
  | .array items => .array (Value.ofJsonItems items)
  | .object members => .document (Document.ofMembers members)

/-- The fields that the members of an object stand for. -/
def Document.ofMembers : List (String × Json) → List (String × Value)
  | [] => []
  | (key, j) :: rest => (key, Value.ofJson j) :: Document.ofMembers rest

/-- The items that the items of an array stand for. -/
def Value.ofJsonItems : List Json → List Value
  | [] => []
  | j :: rest => Value.ofJson j :: Value.ofJsonItems rest

end

/-- The sample that a JSON object stands for; for any other value, what it is instead. -/
def Document.ofJson? : Json → Except Json.Kind Document
  | .object members => .ok (Document.ofMembers members)
  | .null => .error .null
  | .boolean _ => .error .boolean
  | .integer _ => .error .number
  | .double _ => .error .number
  | .text _ => .error .text
  | .array _ => .error .array

/-! ## Documents with their types, as JSON -/

/-- Bytes as an array of numbers. -/
def Bytes.toJson (bytes : Bytes) : Json :=
  .array (bytes.map fun b => .integer b.toNat)

mutual

/-- A value under the name of its kind; the null is its name alone. -/
def Value.tagged : Value → Json
  | .boolean b => .object [("Boolean", .boolean b)]
  | .int32 n => .object [("Int32", .integer n.toInt)]
  | .int64 n => .object [("Int64", .integer n.toInt)]
  | .double d => .object [("Double", if d.isFinite then .double d else .null)]
  | .date millis => .object [("DateTime", .integer millis.toInt)]
  | .timestamp seconds increment =>
    .object [("Timestamp",
      .object [("t", .integer seconds.toNat), ("i", .integer increment.toNat)])]
  | .text s => .object [("String", .text s)]
  | .objectId id => .object [("ObjectId", Bytes.toJson id.toList)]
  | .binary bytes => .object [("Binary", Bytes.toJson bytes)]
  | .null => .text "Null"
  | .document fields =>
    .object [("Document", .object [("elements", .array (Document.taggedFields fields))])]
  | .array items => .object [("Array", .array (Value.taggedItems items))]

/-- Each field as an object of its key and its tagged value. -/
def Document.taggedFields : List (String × Value) → List Json
  | [] => []
  | (key, v) :: rest =>
    .object [("key", .text key), ("value", v.tagged)] :: Document.taggedFields rest

/-- Each item, tagged. -/
def Value.taggedItems : List Value → List Json
  | [] => []
  | v :: rest => v.tagged :: Value.taggedItems rest

end

/-- A document as JSON that keeps every type, every repeated key and their order. -/
def Document.tagged (d : Document) : Json :=
  .object [("elements", .array (Document.taggedFields d))]

end Telemetry

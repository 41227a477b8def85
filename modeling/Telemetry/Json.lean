import Telemetry.Double

/-!
# JSON values

The tree between a JSON text and a document. Objects keep their members in order and hold each key
once: a key that comes again keeps its first position and takes the new value (`Json.insert`).

Integers and doubles are kept apart, as the text has them: an integer is exact.
-/

namespace Telemetry

/-- A JSON value. A number without fraction or exponent is an integer; every key of an object occurs once. -/
inductive Json where
  | null
  | boolean (b : Bool)
  | integer (n : Int)
  | double (d : Double)
  | text (s : String)
  | array (items : List Json)
  | object (members : List (String × Json))
  deriving Inhabited

namespace Json

/-- The kinds of values that are not objects. -/
inductive Kind where
  | null
  | boolean
  | number
  | text
  | array
  deriving DecidableEq, Repr

/-- The name of a kind. -/
def Kind.name : Kind → String
  | .null => "null"
  | .boolean => "boolean"
  | .number => "number"
  | .text => "string"
  | .array => "array"

/-- The members, with one more: a key already present keeps its position. -/
def insert (key : String) (value : Json) : List (String × Json) → List (String × Json)
  | [] => [(key, value)]
  | (k, v) :: rest => if k = key then (k, value) :: rest else (k, v) :: insert key value rest

/-- The members with each key once: first position, last value. -/
def distinct (members : List (String × Json)) : List (String × Json) :=
  members.foldl (fun done (key, value) => insert key value done) []

/-- Whether a member has the key. -/
def hasKey (key : String) (members : List (String × Json)) : Bool :=
  members.any fun member => member.1 == key

end Json

end Telemetry

import Telemetry.Document
import Telemetry.Error

/-!
# Documents as bytes

A document is written as the length of the whole, four bytes that count themselves, and a body. The
body is the number of fields and then each field: key, tag of the value, value. Counts and lengths of
texts, bytes and arrays take eight bytes, tags four; every number is least significant byte first. An
embedded document is its body, without a length in front.

## Shape of the reader

`readValue`, `readFields` and `readItems` take items off the front of the bytes and hand on the rest.
A value takes at least four bytes and a field twelve, so the number of bytes bounds how deep the calls
go. That bound is the first argument; a reader of values for which it is zero stands at the end of the
bytes, where the next item is missing whatever it is.

Bytes left over inside the declared length are ignored, and so are bytes after it.
-/

namespace Telemetry

/-! ## Writing -/

/-- A text: its length in bytes and its UTF-8 form. -/
def Bytes.ofText (s : String) : Bytes :=
  Bytes.ofNat 8 (textBytes s).length ++ textBytes s

mutual

/-- A value: its tag and its content. -/
def Value.encode : Value → Bytes
  | .boolean b => Bytes.ofNat 4 0 ++ [if b then 1 else 0]
  | .int32 n => Bytes.ofNat 4 1 ++ Bytes.ofNat 4 n.toUInt32.toNat
  | .int64 n => Bytes.ofNat 4 2 ++ Bytes.ofNat 8 n.toUInt64.toNat
  | .double d => Bytes.ofNat 4 3 ++ Bytes.ofNat 8 d.bits.toNat
  | .date millis => Bytes.ofNat 4 4 ++ Bytes.ofNat 8 millis.toUInt64.toNat
  | .timestamp seconds increment =>
    Bytes.ofNat 4 5 ++ Bytes.ofNat 4 seconds.toNat ++ Bytes.ofNat 4 increment.toNat
  | .text s => Bytes.ofNat 4 6 ++ Bytes.ofText s
  | .objectId id => Bytes.ofNat 4 7 ++ id.toList
  | .binary bytes => Bytes.ofNat 4 8 ++ Bytes.ofNat 8 bytes.length ++ bytes
  | .null => Bytes.ofNat 4 9
  | .document fields =>
    Bytes.ofNat 4 10 ++ Bytes.ofNat 8 fields.length ++ Document.encodeFields fields
  | .array items => Bytes.ofNat 4 11 ++ Bytes.ofNat 8 items.length ++ Value.encodeItems items

/-- The fields of a document, one after the other. -/
def Document.encodeFields : List (String × Value) → Bytes
  | [] => []
  | (key, v) :: rest => Bytes.ofText key ++ v.encode ++ Document.encodeFields rest

/-- The items of an array, one after the other. -/
def Value.encodeItems : List Value → Bytes
  | [] => []
  | v :: rest => v.encode ++ Value.encodeItems rest

end

/-- The body of a document: the number of fields and the fields. -/
def Document.encodeBody (d : Document) : Bytes :=
  Bytes.ofNat 8 d.length ++ Document.encodeFields d

/-- The size of the length in front of a document. -/
def documentHeaderSize : Nat := 4

/-- A document with its length in front, unless the length does not fit there. -/
def Document.encode (d : Document) : Except EncodingFault Bytes :=
  let body := Document.encodeBody d
  let total := documentHeaderSize + body.length
  if total < UInt32.size then .ok (Bytes.ofNat 4 total ++ body) else .error (.documentTooLarge total)

/-! ## Reading -/

namespace Binary

/-- A reader takes a value off the front of the bytes, or says what is wrong with them. -/
abbrev Reader (α : Type) := Bytes → Except EncodingFault (α × Bytes)

/-- A number of the given width. -/
def readNat (width : Nat) : Reader Nat := fun bytes =>
  match bytes.readWord? width with
  | some r => .ok r
  | none => .error .unexpectedEnd

/-- The next `n` bytes. -/
def readBytes (n : Nat) : Reader Bytes := fun bytes =>
  match bytes.split? n with
  | some r => .ok r
  | none => .error .unexpectedEnd

/-- A text with its length in front; the length is held against what remains before the text is
looked at. -/
def readText : Reader String := fun bytes => do
  let (length, bytes) ← readNat 8 bytes
  match bytes.split? length with
  | none => .error .textTooLong
  | some (front, rest) =>
    match Utf8.decode front with
    | .ok s => .ok (s, rest)
    | .error fault => .error (.badText fault)

/-- A truth value, zero or one. -/
def readBoolean : Reader Bool
  | 0 :: rest => .ok (false, rest)
  | 1 :: rest => .ok (true, rest)
  | b :: _ => .error (.badBoolean b)
  | [] => .error .unexpectedEnd

/-- Twelve bytes. -/
def readObjectId : Reader (Vector UInt8 12) := fun bytes => do
  let (front, rest) ← readBytes 12 bytes
  if h : front.toArray.size = 12 then .ok (⟨front.toArray, h⟩, rest) else .error .unexpectedEnd

mutual

/-- A value with its tag in front. -/
def readValue : (bound : Nat) → Reader Value
  | 0, _ => .error .unexpectedEnd
  | bound + 1, bytes => do
    let (tag, bytes) ← readNat 4 bytes
    match tag with
    | 0 =>
      let (b, rest) ← readBoolean bytes
      .ok (.boolean b, rest)
    | 1 =>
      let (n, rest) ← readNat 4 bytes
      .ok (.int32 (UInt32.ofNat n).toInt32, rest)
    | 2 =>
      let (n, rest) ← readNat 8 bytes
      .ok (.int64 (UInt64.ofNat n).toInt64, rest)
    | 3 =>
      let (n, rest) ← readNat 8 bytes
      .ok (.double ⟨UInt64.ofNat n⟩, rest)
    | 4 =>
      let (n, rest) ← readNat 8 bytes
      .ok (.date (UInt64.ofNat n).toInt64, rest)
    | 5 =>
      let (seconds, rest) ← readNat 4 bytes
      let (increment, rest) ← readNat 4 rest
      .ok (.timestamp (UInt32.ofNat seconds) (UInt32.ofNat increment), rest)
    | 6 =>
      let (s, rest) ← readText bytes
      .ok (.text s, rest)
    | 7 =>
      let (id, rest) ← readObjectId bytes
      .ok (.objectId id, rest)
    | 8 =>
      let (length, rest) ← readNat 8 bytes
      let (content, rest) ← readBytes length rest
      .ok (.binary content, rest)
    | 9 => .ok (.null, bytes)
    | 10 =>
      let (count, rest) ← readNat 8 bytes
      let (fields, rest) ← readFields bound count rest
      .ok (.document fields, rest)
    | 11 =>
      let (count, rest) ← readNat 8 bytes
      let (items, rest) ← readItems bound count rest
      .ok (.array items, rest)
    | tag => .error (.badVariant tag)

/-- The given number of fields. -/
def readFields : (bound count : Nat) → Reader (List (String × Value))
  | _, 0, bytes => .ok ([], bytes)
  | 0, _ + 1, _ => .error .unexpectedEnd
  | bound + 1, count + 1, bytes => do
    let (key, bytes) ← readText bytes
    let (value, bytes) ← readValue bound bytes
    let (fields, bytes) ← readFields bound count bytes
    .ok ((key, value) :: fields, bytes)

/-- The given number of items. -/
def readItems : (bound count : Nat) → Reader (List Value)
  | _, 0, bytes => .ok ([], bytes)
  | 0, _ + 1, _ => .error .unexpectedEnd
  | bound + 1, count + 1, bytes => do
    let (value, bytes) ← readValue bound bytes
    let (items, bytes) ← readItems bound count bytes
    .ok (value :: items, bytes)

end

/-- The body of a document. -/
def readBody : Reader Document := fun bytes => do
  let (count, rest) ← readNat 8 bytes
  readFields bytes.length count rest

end Binary

/-- The document at the front of the bytes, and how many bytes it takes by its own account. -/
def Document.decode (bytes : Bytes) : Except DocumentFault (Document × Nat) :=
  match bytes.readWord? documentHeaderSize with
  | none => .error (.format .documentTooShort)
  | some (declared, _) =>
    if declared < documentHeaderSize then .error (.format (.documentLength declared))
    else if bytes.length < declared then
      .error (.format (.documentTruncated declared bytes.length))
    else
      match Binary.readBody ((bytes.take declared).drop documentHeaderSize) with
      | .ok (d, _) => .ok (d, declared)
      | .error fault => .error (.encoding fault)

end Telemetry

import Telemetry.Document.Binary

/-!
# Reading back a document

A document comes back from its bytes, whatever follows them, and it takes as many bytes as were written
(`Document.decode_bytes`).

## Shape of the proof

Values, fields and items are one induction over the data (`readValue_encode` and its companions). The
reader's bound is no obstacle: it starts as the number of bytes, and whatever is nested in a value is
shorter than the value. Counts and lengths are written in eight bytes, which is enough because a document
that can be written at all is shorter than that.
-/

namespace Telemetry

/-- A text comes back from its UTF-8 form. -/
theorem Utf8.decode_textBytes (s : String) : Utf8.decode (textBytes s) = .ok s := by
  have hbytes : (⟨(textBytes s).toArray⟩ : ByteArray) = s.toByteArray := by
    simp [textBytes]
  have htext : String.fromUTF8? s.toByteArray = some s := by
    rw [String.fromUTF8?, dif_pos s.isValidUTF8]
    rfl
  simp only [Utf8.decode, hbytes, htext]

namespace Binary

/-! ## Items -/

theorem readNat_ofNat {width n : Nat} (h : n < Bytes.bound width) (rest : Bytes) :
    readNat width (Bytes.ofNat width n ++ rest) = .ok (n, rest) := by
  simp [readNat, h]

/-- A tag comes back. -/
theorem readNat_tag {tag : Nat} (h : tag < 12) (rest : Bytes) :
    readNat 4 (Bytes.ofNat 4 tag ++ rest) = .ok (tag, rest) :=
  readNat_ofNat (Nat.lt_trans h (by decide)) rest

/-- A word of four bytes comes back. -/
theorem readNat_word (n : UInt32) (rest : Bytes) :
    readNat 4 (Bytes.ofNat 4 n.toNat ++ rest) = .ok (n.toNat, rest) :=
  readNat_ofNat n.toNat_lt rest

/-- A word of eight bytes comes back. -/
theorem readNat_longWord (n : UInt64) (rest : Bytes) :
    readNat 8 (Bytes.ofNat 8 n.toNat ++ rest) = .ok (n.toNat, rest) :=
  readNat_ofNat n.toNat_lt rest

/-- The count of things that fit a document comes back. -/
theorem readNat_count {n : Nat} (h : n < UInt32.size) (rest : Bytes) :
    readNat 8 (Bytes.ofNat 8 n ++ rest) = .ok (n, rest) :=
  readNat_ofNat (Nat.lt_trans h (by decide)) rest

theorem readBytes_append {n : Nat} {front : Bytes} (h : front.length = n) (rest : Bytes) :
    readBytes n (front ++ rest) = .ok (front, rest) := by
  subst h
  simp [readBytes]

/-- A text comes back. -/
theorem readText_ofText {s : String} (h : (textBytes s).length < UInt32.size) (rest : Bytes) :
    readText (Bytes.ofText s ++ rest) = .ok (s, rest) := by
  simp [readText, Bytes.ofText, readNat_count h, bind, Except.bind, Utf8.decode_textBytes]

theorem readBoolean_encode (b : Bool) (rest : Bytes) :
    readBoolean ((if b then 1 else 0) :: rest) = .ok (b, rest) := by
  cases b <;> rfl

theorem readObjectId_toList (id : Vector UInt8 12) (rest : Bytes) :
    readObjectId (id.toList ++ rest) = .ok (id, rest) := by
  have h : readBytes 12 (id.toList ++ rest) = .ok (id.toList, rest) := readBytes_append (by simp) rest
  simp only [readObjectId, h, bind, Except.bind]
  simp [Vector.toList]

end Binary

open Binary

/-! ## Lengths -/

/-- Every field takes bytes. -/
theorem Document.length_le_encodeFields : ∀ fields : List (String × Value),
    fields.length ≤ (Document.encodeFields fields).length
  | [] => Nat.le_refl 0
  | (key, v) :: fields => by
    have := Document.length_le_encodeFields fields
    simp only [Document.encodeFields, Bytes.ofText, List.length_append, Bytes.length_ofNat,
      List.length_cons]
    omega

theorem Value.four_le_length_encode (v : Value) : 4 ≤ v.encode.length := by
  cases v <;> simp only [Value.encode, Bytes.ofText, List.length_append, Bytes.length_ofNat,
    List.length_cons] <;> omega

/-- Every item takes bytes. -/
theorem Value.length_le_encodeItems : ∀ items : List Value,
    items.length ≤ (Value.encodeItems items).length
  | [] => Nat.le_refl 0
  | v :: items => by
    have := Value.length_le_encodeItems items
    have := v.four_le_length_encode
    simp only [Value.encodeItems, List.length_append, List.length_cons]
    omega

/-! ## Values -/

mutual

/-- A value comes back. -/
theorem Value.readValue_encode : ∀ (v : Value) (bound : Nat) (rest : Bytes),
    v.encode.length ≤ bound + 3 → v.encode.length < UInt32.size →
      readValue bound (v.encode ++ rest) = .ok (v, rest)
  | v, 0, _, hbound, _ => by
    have := v.four_le_length_encode
    omega
  | .boolean b, bound + 1, rest, _, _ => by
    simp [Value.encode, readValue, readNat_tag, bind, Except.bind, readBoolean_encode]
  | .int32 n, bound + 1, rest, _, _ => by
    simp [Value.encode, readValue, readNat_tag, bind, Except.bind, readNat_word]
  | .int64 n, bound + 1, rest, _, _ => by
    simp [Value.encode, readValue, readNat_tag, bind, Except.bind, readNat_longWord]
  | .double d, bound + 1, rest, _, _ => by
    simp [Value.encode, readValue, readNat_tag, bind, Except.bind, readNat_longWord]
  | .date millis, bound + 1, rest, _, _ => by
    simp [Value.encode, readValue, readNat_tag, bind, Except.bind, readNat_longWord]
  | .timestamp seconds increment, bound + 1, rest, _, _ => by
    simp [Value.encode, readValue, readNat_tag, bind, Except.bind, readNat_word]
  | .text s, bound + 1, rest, _, hsize => by
    have hs : (textBytes s).length < UInt32.size := by
      simp only [Value.encode, Bytes.ofText, List.length_append] at hsize
      omega
    simp [Value.encode, readValue, readNat_tag, bind, Except.bind, readText_ofText hs]
  | .objectId id, bound + 1, rest, _, _ => by
    simp [Value.encode, readValue, readNat_tag, bind, Except.bind, readObjectId_toList]
  | .binary bytes, bound + 1, rest, _, hsize => by
    have hs : bytes.length < UInt32.size := by
      simp only [Value.encode, List.length_append] at hsize
      omega
    simp [Value.encode, readValue, readNat_tag, bind, Except.bind, readNat_count hs, readBytes_append]
  | .null, bound + 1, rest, _, _ => by
    simp [Value.encode, readValue, readNat_tag, bind, Except.bind]
  | .document fields, bound + 1, rest, hbound, hsize => by
    simp only [Value.encode, List.length_append, Bytes.length_ofNat] at hbound hsize
    have hcount := Document.length_le_encodeFields fields
    have hfields := Document.readFields_encodeFields fields bound rest (by omega) (by omega)
    simp [Value.encode, readValue, readNat_tag, bind, Except.bind,
      readNat_count (n := fields.length) (by omega), hfields]
  | .array items, bound + 1, rest, hbound, hsize => by
    simp only [Value.encode, List.length_append, Bytes.length_ofNat] at hbound hsize
    have hcount := Value.length_le_encodeItems items
    have hitems := Value.readItems_encodeItems items bound rest (by omega) (by omega)
    simp [Value.encode, readValue, readNat_tag, bind, Except.bind,
      readNat_count (n := items.length) (by omega), hitems]

/-- Fields come back. -/
theorem Document.readFields_encodeFields : ∀ (fields : List (String × Value)) (bound : Nat)
    (rest : Bytes), (Document.encodeFields fields).length ≤ bound →
    (Document.encodeFields fields).length < UInt32.size →
      readFields bound fields.length (Document.encodeFields fields ++ rest) = .ok (fields, rest)
  | [], bound, rest, _, _ => by
    simp [readFields, Document.encodeFields]
  | (key, v) :: fields, 0, rest, hbound, _ => by
    have := v.four_le_length_encode
    simp only [Document.encodeFields, List.length_append] at hbound
    omega
  | (key, v) :: fields, bound + 1, rest, hbound, hsize => by
    simp only [Document.encodeFields, Bytes.ofText, List.length_append, Bytes.length_ofNat]
      at hbound hsize
    have hkey := readText_ofText (s := key) (by omega)
      (v.encode ++ (Document.encodeFields fields ++ rest))
    have hvalue := Value.readValue_encode v bound (Document.encodeFields fields ++ rest) (by omega)
      (by omega)
    have hfields := Document.readFields_encodeFields fields bound rest (by omega) (by omega)
    simp [Document.encodeFields, readFields, bind, Except.bind, hkey, hvalue, hfields]

/-- Items come back. -/
theorem Value.readItems_encodeItems : ∀ (items : List Value) (bound : Nat) (rest : Bytes),
    (Value.encodeItems items).length ≤ bound + 2 → (Value.encodeItems items).length < UInt32.size →
      readItems bound items.length (Value.encodeItems items ++ rest) = .ok (items, rest)
  | [], bound, rest, _, _ => by
    simp [readItems, Value.encodeItems]
  | v :: items, 0, rest, hbound, _ => by
    have := v.four_le_length_encode
    simp only [Value.encodeItems, List.length_append] at hbound
    omega
  | v :: items, bound + 1, rest, hbound, hsize => by
    have := v.four_le_length_encode
    simp only [Value.encodeItems, List.length_append] at hbound hsize
    have hvalue := Value.readValue_encode v bound (Value.encodeItems items ++ rest) (by omega)
      (by omega)
    have hitems := Value.readItems_encodeItems items bound rest (by omega) (by omega)
    simp [Value.encodeItems, readItems, bind, Except.bind, hvalue, hitems]

end

/-! ## Documents -/

/-- How many bytes a document takes, its length in front included. -/
def Document.size (d : Document) : Nat :=
  documentHeaderSize + (Document.encodeBody d).length

/-- The bytes of a document, its length in front. -/
def Document.bytes (d : Document) : Bytes :=
  Bytes.ofNat 4 d.size ++ Document.encodeBody d

@[simp] theorem Document.length_bytes (d : Document) : (Document.bytes d).length = d.size := by
  simp [Document.bytes, Document.size, documentHeaderSize]

/-- A document is written unless its length does not fit in front. -/
theorem Document.encode_eq {d : Document} (h : d.size < UInt32.size) :
    Document.encode d = .ok (Document.bytes d) := by
  rw [Document.encode]
  exact if_pos h

/-- A document that was written has a length that fits in front. -/
theorem Document.size_lt_of_encode {d : Document} {bytes : Bytes} (h : Document.encode d = .ok bytes) :
    d.size < UInt32.size := by
  by_cases hsize : d.size < UInt32.size
  · exact hsize
  · have herror : Document.encode d = .error (.documentTooLarge d.size) := if_neg hsize
    simp [herror] at h

/-- A document comes back from its body, whatever follows it. -/
theorem Document.readBody_encodeBody {d : Document} (h : d.size < UInt32.size) (rest : Bytes) :
    Binary.readBody (Document.encodeBody d ++ rest) = .ok (d, rest) := by
  have hlen := Document.length_le_encodeFields d
  simp only [Document.size, Document.encodeBody, List.length_append, Bytes.length_ofNat,
    documentHeaderSize] at h
  have hfields := Document.readFields_encodeFields d (Document.encodeBody d ++ rest).length rest
    (by simp only [Document.encodeBody, List.length_append]; omega) (by omega)
  rw [Binary.readBody, Document.encodeBody, List.append_assoc, readNat_count (n := d.length) (by omega)]
  rw [Document.encodeBody, List.append_assoc] at hfields
  exact hfields

/-- A document comes back from its bytes, whatever follows them. -/
theorem Document.decode_bytes {d : Document} (h : d.size < UInt32.size) (rest : Bytes) :
    Document.decode (Document.bytes d ++ rest) = .ok (d, d.size) := by
  have hbody := Document.readBody_encodeBody h []
  rw [List.append_nil] at hbody
  have hword : Bytes.readWord? documentHeaderSize (Document.bytes d ++ rest) =
      some (d.size, Document.encodeBody d ++ rest) := by
    rw [Document.bytes, List.append_assoc]
    exact Bytes.readWord?_append h _
  have hfront : ((Document.bytes d ++ rest).take d.size).drop documentHeaderSize =
      Document.encodeBody d := by
    rw [← Document.length_bytes d, List.take_left, Document.bytes]
    exact List.drop_left' (Bytes.length_ofNat 4 d.size)
  rw [Document.decode, hword]
  simp only [hfront, hbody]
  rw [if_neg (by simp [Document.size, documentHeaderSize]), if_neg (by simp)]

end Telemetry

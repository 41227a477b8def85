import Telemetry.Proofs.Document.Binary
import Telemetry.Proofs.Metric

/-!
# What holds at every level of a document

Documents and arrays nest, so a property of documents, such as that keys are distinct, is asked for at every level:
`Value.Everywhere` is said of a value and of all values in it. A property that only looks at the outline of a value
holds everywhere in one sample of an outline if it does in another (`Document.everywhere_of_outline`).
-/

namespace Telemetry

/-! ## Everywhere in a value -/

mutual

/-- The property holds of a value and of all values in it. -/
def Value.Everywhere (p : Value → Prop) : Value → Prop
  | .document fields => p (.document fields) ∧ Document.EverywhereInFields p fields
  | .array items => p (.array items) ∧ Value.EverywhereInItems p items
  | v => p v

/-- The property holds everywhere in the values of the fields. -/
def Document.EverywhereInFields (p : Value → Prop) : List (String × Value) → Prop
  | [] => True
  | (_, v) :: rest => v.Everywhere p ∧ Document.EverywhereInFields p rest

/-- The property holds everywhere in the items. -/
def Value.EverywhereInItems (p : Value → Prop) : List Value → Prop
  | [] => True
  | v :: rest => v.Everywhere p ∧ Value.EverywhereInItems p rest

end

variable {p : Value → Prop}

theorem Document.everywhereInFields_iff {fields : List (String × Value)} :
    Document.EverywhereInFields p fields ↔ ∀ field ∈ fields, field.2.Everywhere p := by
  induction fields with
  | nil => simp [Document.EverywhereInFields]
  | cons field fields ih => rw [Document.EverywhereInFields, ih, List.forall_mem_cons]

theorem Value.everywhereInItems_iff {items : List Value} :
    Value.EverywhereInItems p items ↔ ∀ v ∈ items, v.Everywhere p := by
  induction items with
  | nil => simp [Value.EverywhereInItems]
  | cons v items ih => rw [Value.EverywhereInItems, ih, List.forall_mem_cons]

namespace Value.Everywhere

theorem field {fields : List (String × Value)} {key : String} {v : Value} (h : (Value.document fields).Everywhere p)
    (hmem : (key, v) ∈ fields) : v.Everywhere p :=
  Document.everywhereInFields_iff.mp h.2 _ hmem

theorem item {items : List Value} {v : Value} (h : (Value.array items).Everywhere p) (hmem : v ∈ items) :
    v.Everywhere p :=
  Value.everywhereInItems_iff.mp h.2 _ hmem

end Value.Everywhere

/-! ## Outlines -/

mutual

/-- A property that looks at outlines holds everywhere in a value if it does in the outline. -/
theorem Value.everywhere_outline (hp : ∀ v : Value, p v.outline ↔ p v) : ∀ v : Value,
    v.outline.Everywhere p ↔ v.Everywhere p
  | .document fields => and_congr (hp (.document fields)) (Document.everywhereInFields_outline hp fields)
  | .array items => and_congr (hp (.array items)) (Value.everywhereInItems_outline hp items)
  | .boolean b => hp (.boolean b)
  | .int32 n => hp (.int32 n)
  | .int64 n => hp (.int64 n)
  | .double d => hp (.double d)
  | .date millis => hp (.date millis)
  | .timestamp seconds increment => hp (.timestamp seconds increment)
  | .text _ | .objectId _ | .binary _ | .null => Iff.rfl

/-- A property that looks at outlines holds everywhere in fields if it does in their outline. -/
theorem Document.everywhereInFields_outline (hp : ∀ v : Value, p v.outline ↔ p v) : ∀ fields : List (String × Value),
    Document.EverywhereInFields p (Document.outline fields) ↔ Document.EverywhereInFields p fields
  | [] => Iff.rfl
  | (_, v) :: fields => and_congr (Value.everywhere_outline hp v) (Document.everywhereInFields_outline hp fields)

/-- A property that looks at outlines holds everywhere in items if it does in their outlines. -/
theorem Value.everywhereInItems_outline (hp : ∀ v : Value, p v.outline ↔ p v) : ∀ items : List Value,
    Value.EverywhereInItems p (Value.outlineOfItems items) ↔ Value.EverywhereInItems p items
  | [] => Iff.rfl
  | v :: items => and_congr (Value.everywhere_outline hp v) (Value.everywhereInItems_outline hp items)

end

/-- A property that looks at outlines is shared by the samples of one outline. -/
theorem Document.everywhere_of_outline (hp : ∀ v : Value, p v.outline ↔ p v) {d e : Document}
    (h : Document.outline d = Document.outline e) (hd : (Value.document d).Everywhere p) :
    (Value.document e).Everywhere p := by
  rw [← Value.everywhere_outline hp, Value.outline, ← h]
  exact (Value.everywhere_outline hp (.document d)).mpr hd

/-! ## Keys -/

/-- A document holds each key once. -/
def Value.KeysDistinct : Value → Prop
  | .document fields => (Document.keys fields).Nodup
  | _ => True

/-- No key of a document has the character in it. -/
def Value.NoKeyHas (c : Char) : Value → Prop
  | .document fields => ∀ key ∈ Document.keys fields, c ∉ key.toList
  | _ => True

theorem Document.keys_outline (d : Document) : keys (outline d) = keys d := by
  induction d with
  | nil => rfl
  | cons field d ih => exact congrArg (field.1 :: ·) ih

theorem Value.keysDistinct_outline (v : Value) : v.outline.KeysDistinct ↔ v.KeysDistinct := by
  cases v with
  | document fields => rw [outline, KeysDistinct, KeysDistinct, Document.keys_outline]
  | _ => exact Iff.rfl

theorem Value.noKeyHas_outline (c : Char) (v : Value) : v.outline.NoKeyHas c ↔ v.NoKeyHas c := by
  cases v with
  | document fields => rw [outline, NoKeyHas, NoKeyHas, Document.keys_outline]
  | _ => exact Iff.rfl

/-! ## Lengths of arrays -/

/-- An array has fewer items than there are positions of 64 bits. -/
def Value.IsShort : Value → Prop
  | .array items => items.length < UInt64.size
  | _ => True

theorem Value.isShort_outline (v : Value) : v.outline.IsShort ↔ v.IsShort := by
  cases v with
  | array items =>
    rw [outline, IsShort, IsShort]
    suffices hlen : (outlineOfItems items).length = items.length by rw [hlen]
    induction items with
    | nil => rfl
    | cons v items ih => exact congrArg (· + 1) ih
  | _ => exact Iff.rfl

mutual

/-- In what can be written in so few bytes, arrays are short. -/
theorem Value.everywhere_isShort : ∀ v : Value, v.encode.length < UInt64.size → v.Everywhere Value.IsShort
  | .document fields, h => by
    rw [Value.encode, List.length_append] at h
    exact ⟨trivial, Document.everywhereInFields_isShort fields (by omega)⟩
  | .array items, h => by
    rw [Value.encode, List.length_append] at h
    have hlen := Value.length_le_encodeItems items
    have hshort : items.length < UInt64.size := by omega
    exact ⟨hshort, Value.everywhereInItems_isShort items (by omega)⟩
  | .boolean _, _ | .int32 _, _ | .int64 _, _ | .double _, _ | .date _, _ | .timestamp _ _, _ | .text _, _
  | .objectId _, _ | .binary _, _ | .null, _ => trivial

theorem Document.everywhereInFields_isShort : ∀ fields : List (String × Value),
    (Document.encodeFields fields).length < UInt64.size → Document.EverywhereInFields Value.IsShort fields
  | [], _ => trivial
  | (key, v) :: fields, h => by
    rw [Document.encodeFields, List.length_append, List.length_append] at h
    exact ⟨Value.everywhere_isShort v (by omega), Document.everywhereInFields_isShort fields (by omega)⟩

theorem Value.everywhereInItems_isShort : ∀ items : List Value,
    (Value.encodeItems items).length < UInt64.size → Value.EverywhereInItems Value.IsShort items
  | [], _ => trivial
  | v :: items, h => by
    rw [Value.encodeItems, List.length_append] at h
    exact ⟨Value.everywhere_isShort v (by omega), Value.everywhereInItems_isShort items (by omega)⟩

end

/-- A document that fits its length field has short arrays. -/
theorem Document.everywhere_isShort_of_size {d : Document} (h : d.size < UInt32.size) :
    (Value.document d).Everywhere Value.IsShort := by
  rw [size, encodeBody, List.length_append] at h
  have hbound : UInt32.size < UInt64.size := by decide
  exact ⟨trivial, everywhereInFields_isShort d (by omega)⟩

end Telemetry

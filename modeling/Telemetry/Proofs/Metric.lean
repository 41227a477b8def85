import Telemetry.Chunk

/-!
# The walks over a document in step

A document is walked in two ways: for its readings, and for the fields that its schema is made of. They
agree series by series (`map_schema`), so that a series and a reading with one number belong to each other.

## Outlines

What remains of a document when its metrics are taken away is its outline: keys, nesting, lengths of arrays,
types of values, and every value that is no metric. An outline and readings make a document again:
`Document.eq_of_outline_of_readings` says that nothing else is in it.

## Fields

The readings of a document are those of its metric-bearing fields (`Document.flatMap_readings`), and where these
stand can be told from the outline (`Document.places_outline`).

## Words

A word of a series stands for a reading of the type of the series (`Reading.ofWord`). Types narrower than a
word lose what does not fit; a reading that was taken from a document always fits (`Document.ofWord_readings`).
-/

namespace Telemetry

/-! ## Readings and schema -/

/-- The series that a metric-bearing field starts. -/
def MetricField.heads (f : MetricField) : List SeriesHead :=
  f.value.starts.map fun start => { path := f.path, type := f.type, start }

/-- The type and the first word of a series. -/
def SeriesHead.word (h : SeriesHead) : MetricType × Int64 :=
  (h.type, h.start)

/-- The type and the word of a reading. -/
def Reading.word (r : Reading) : MetricType × Int64 :=
  (r.type, r.quantity.toInt64)

/-- Where a field stands makes no difference to the words of its series. -/
theorem MetricField.map_word_heads_under (segment : String) (f : MetricField) :
    (f.under segment).heads.map SeriesHead.word = f.heads.map SeriesHead.word := by
  simp [MetricField.heads, MetricField.under, SeriesHead.word, Function.comp_def]

theorem MetricField.flatMap_under (segment : String) (fields : List MetricField) :
    (fields.map (·.under segment)).flatMap (fun f => f.heads.map SeriesHead.word) =
      fields.flatMap fun f => f.heads.map SeriesHead.word := by
  simp [List.flatMap_map, MetricField.map_word_heads_under]

mutual

/-- The series of a value start with its readings. -/
theorem Value.flatMap_metricFields : ∀ v : Value,
    v.metricFields.flatMap (fun f => f.heads.map SeriesHead.word) = v.readings.map Reading.word
  | .document fields => by
    rw [Value.metricFields, Value.readings]
    exact Document.flatMap_metricFields fields
  | .array items => by
    rw [Value.metricFields, Value.readings]
    exact Value.flatMap_metricFieldsFrom 0 items
  | .boolean _ | .int32 _ | .int64 _ | .double _ | .date _ | .timestamp _ _ | .text _ | .objectId _
  | .binary _ | .null => rfl

/-- The series of a document start with its readings. -/
theorem Document.flatMap_metricFields : ∀ fields : List (String × Value),
    (Document.metricFields fields).flatMap (fun f => f.heads.map SeriesHead.word) =
      (Document.readings fields).map Reading.word
  | [] => rfl
  | (key, v) :: fields => by
    rw [Document.metricFields, Document.readings, List.flatMap_append, List.map_append,
      MetricField.flatMap_under, Value.flatMap_metricFields v, Document.flatMap_metricFields fields]

/-- The series of items start with their readings, wherever in an array the items stand. -/
theorem Value.flatMap_metricFieldsFrom : ∀ (i : Nat) (items : List Value),
    (Value.metricFieldsFrom i items).flatMap (fun f => f.heads.map SeriesHead.word) =
      (Value.readingsOfItems items).map Reading.word
  | _, [] => rfl
  | i, v :: items => by
    rw [Value.metricFieldsFrom, Value.readingsOfItems, List.flatMap_append, List.map_append,
      MetricField.flatMap_under, Value.flatMap_metricFields v,
      Value.flatMap_metricFieldsFrom (i + 1) items]

end

/-- The series of a reference sample have the types of its readings and start with them. -/
theorem Document.map_schema (d : Document) :
    (Document.schema d).map SeriesHead.word = (Document.readings d).map Reading.word := by
  rw [← Document.flatMap_metricFields d, Document.schema, List.map_flatMap]
  rfl

@[simp] theorem Document.length_schema (d : Document) :
    (Document.schema d).length = (Document.readings d).length := by
  simpa using congrArg List.length (Document.map_schema d)

/-! ## Outlines -/

mutual

/-- A value with its metrics set to the zeros of their types. -/
def Value.outline : Value → Value
  | .boolean _ => .boolean false
  | .int32 _ => .int32 0
  | .int64 _ => .int64 0
  | .double _ => .double ⟨0⟩
  | .date _ => .date 0
  | .timestamp _ _ => .timestamp 0 0
  | .document fields => .document (Document.outline fields)
  | .array items => .array (Value.outlineOfItems items)
  | v => v

/-- A document with its metrics set to the zeros of their types. -/
def Document.outline : List (String × Value) → List (String × Value)
  | [] => []
  | (key, v) :: rest => (key, v.outline) :: Document.outline rest

/-- Items with their metrics set to the zeros of their types. -/
def Value.outlineOfItems : List Value → List Value
  | [] => []
  | v :: rest => v.outline :: Value.outlineOfItems rest

end

mutual

/-- An outline tells the types of the readings. -/
theorem Value.types_outline : ∀ v : Value,
    v.outline.readings.map Reading.type = v.readings.map Reading.type
  | .document fields => by
    rw [Value.outline, Value.readings, Value.readings]
    exact Document.types_outline fields
  | .array items => by
    rw [Value.outline, Value.readings, Value.readings]
    exact Value.types_outlineOfItems items
  | .boolean _ | .int32 _ | .int64 _ | .double _ | .date _ | .timestamp _ _ | .text _ | .objectId _
  | .binary _ | .null => rfl

/-- The outline of a document tells the types of its readings. -/
theorem Document.types_outline : ∀ fields : List (String × Value),
    (Document.readings (Document.outline fields)).map Reading.type =
      (Document.readings fields).map Reading.type
  | [] => rfl
  | (key, v) :: fields => by
    rw [Document.outline, Document.readings, Document.readings, List.map_append, List.map_append,
      Value.types_outline v, Document.types_outline fields]

/-- The outlines of items tell the types of their readings. -/
theorem Value.types_outlineOfItems : ∀ items : List Value,
    (Value.readingsOfItems (Value.outlineOfItems items)).map Reading.type =
      (Value.readingsOfItems items).map Reading.type
  | [] => rfl
  | v :: items => by
    rw [Value.outlineOfItems, Value.readingsOfItems, Value.readingsOfItems, List.map_append,
      List.map_append, Value.types_outline v, Value.types_outlineOfItems items]

end

/-- Values of one outline have equally many readings. -/
theorem Value.length_readings_of_outline {v w : Value} (h : v.outline = w.outline) :
    v.readings.length = w.readings.length := by
  have htypes : v.readings.map Reading.type = w.readings.map Reading.type := by
    rw [← Value.types_outline v, ← Value.types_outline w, h]
  simpa using congrArg List.length htypes

private theorem toInt64_inj {a b : Int32} (h : a.toInt64 = b.toInt64) : a = b := by
  simpa using congrArg Int64.toInt32 h

theorem wordOfHalf_inj {a b : UInt32} (h : wordOfHalf a = wordOfHalf b) : a = b := by
  have := congrArg (fun w : Int64 => w.toUInt64.toUInt32) h
  simpa [wordOfHalf] using this

mutual

/-- An outline and readings make a value. -/
theorem Value.eq_of_outline_of_readings : ∀ {v w : Value}, v.outline = w.outline →
    v.readings = w.readings → v = w
  | .boolean a, w, ho, hr => by
    cases w <;> simp [Value.outline] at ho
    next b => cases a <;> cases b <;> simp [Value.readings] at hr ⊢
  | .int32 a, w, ho, hr => by
    cases w <;> simp [Value.outline] at ho
    simp only [Value.readings, List.cons.injEq, Reading.mk.injEq, Quantity.integer.injEq] at hr
    rw [toInt64_inj hr.1.2]
  | .int64 a, w, ho, hr => by
    cases w <;> simp [Value.outline] at ho
    simpa [Value.readings] using hr
  | .double a, w, ho, hr => by
    cases w <;> simp [Value.outline] at ho
    simpa [Value.readings] using hr
  | .date a, w, ho, hr => by
    cases w <;> simp [Value.outline] at ho
    simpa [Value.readings] using hr
  | .timestamp a b, w, ho, hr => by
    cases w <;> simp [Value.outline] at ho
    simp only [Value.readings, List.cons.injEq, Reading.mk.injEq, true_and, Quantity.integer.injEq,
      and_true] at hr
    rw [wordOfHalf_inj hr.1, wordOfHalf_inj hr.2]
  | .text _, w, ho, _ | .objectId _, w, ho, _ | .binary _, w, ho, _ | .null, w, ho, _ => by
    cases w <;> simp [Value.outline] at ho ⊢
    all_goals exact ho
  | .document fields, w, ho, hr => by
    cases w <;> simp [Value.outline] at ho
    rw [Value.readings, Value.readings] at hr
    rw [Document.eq_of_outline_of_readings ho hr]
  | .array items, w, ho, hr => by
    cases w <;> simp [Value.outline] at ho
    rw [Value.readings, Value.readings] at hr
    rw [Value.items_eq_of_outline_of_readings ho hr]

/-- An outline and readings make a document. -/
theorem Document.eq_of_outline_of_readings : ∀ {d e : List (String × Value)},
    Document.outline d = Document.outline e → Document.readings d = Document.readings e → d = e
  | [], [], _, _ => rfl
  | [], _ :: _, ho, _ => by simp [Document.outline] at ho
  | _ :: _, [], ho, _ => by simp [Document.outline] at ho
  | (key, v) :: d, (key', w) :: e, ho, hr => by
    simp only [Document.outline, List.cons.injEq, Prod.mk.injEq] at ho
    obtain ⟨⟨rfl, hvalue⟩, hrest⟩ := ho
    obtain ⟨hr, hr'⟩ := List.append_inj hr (Value.length_readings_of_outline hvalue)
    rw [Value.eq_of_outline_of_readings hvalue hr, Document.eq_of_outline_of_readings hrest hr']

/-- Outlines and readings make items. -/
theorem Value.items_eq_of_outline_of_readings : ∀ {vs ws : List Value},
    Value.outlineOfItems vs = Value.outlineOfItems ws →
      Value.readingsOfItems vs = Value.readingsOfItems ws → vs = ws
  | [], [], _, _ => rfl
  | [], _ :: _, ho, _ => by simp [Value.outlineOfItems] at ho
  | _ :: _, [], ho, _ => by simp [Value.outlineOfItems] at ho
  | v :: vs, w :: ws, ho, hr => by
    simp only [Value.outlineOfItems, List.cons.injEq] at ho
    obtain ⟨hvalue, hrest⟩ := ho
    obtain ⟨hr, hr'⟩ := List.append_inj hr (Value.length_readings_of_outline hvalue)
    rw [Value.eq_of_outline_of_readings hvalue hr,
      Value.items_eq_of_outline_of_readings hrest hr']

end

/-- Where a field stands, and its type. -/
def MetricField.place (f : MetricField) : List String × MetricType :=
  (f.path, f.type)

theorem MetricField.map_place_under (segment : String) (fields : List MetricField) :
    (fields.map (·.under segment)).map place =
      (fields.map place).map fun (path, type) => (segment :: path, type) := by
  simp [place, under, Function.comp_def]

mutual

/-- The type of a field of a value is that of the field's value. -/
theorem Value.metricType?_of_mem_metricFields : ∀ (v : Value), ∀ f ∈ v.metricFields,
    f.value.metricType? = some f.type
  | .document fields, f, hf => Document.metricType?_of_mem_metricFields fields f (by rwa [Value.metricFields] at hf)
  | .array items, f, hf => Value.metricType?_of_mem_metricFieldsFrom 0 items f (by rwa [Value.metricFields] at hf)
  | .boolean _, f, hf | .int32 _, f, hf | .int64 _, f, hf | .double _, f, hf | .date _, f, hf
  | .timestamp _ _, f, hf => by
    simp only [Value.metricFields, Value.metricType?, List.mem_singleton] at hf
    rw [hf]
    rfl
  | .text _, f, hf | .objectId _, f, hf | .binary _, f, hf | .null, f, hf => by
    simp [Value.metricFields, Value.metricType?] at hf

/-- The type of a field of a document is that of its value. -/
theorem Document.metricType?_of_mem_metricFields : ∀ (fields : List (String × Value)),
    ∀ f ∈ Document.metricFields fields, f.value.metricType? = some f.type
  | [], f, hf => by simp [Document.metricFields] at hf
  | (_, v) :: fields, f, hf => by
    rw [Document.metricFields, List.mem_append, List.mem_map] at hf
    rcases hf with ⟨g, hg, rfl⟩ | hf
    · exact Value.metricType?_of_mem_metricFields v g hg
    · exact Document.metricType?_of_mem_metricFields fields f hf

/-- The type of a field of items is that of its value. -/
theorem Value.metricType?_of_mem_metricFieldsFrom : ∀ (i : Nat) (items : List Value),
    ∀ f ∈ Value.metricFieldsFrom i items, f.value.metricType? = some f.type
  | _, [], f, hf => by simp [Value.metricFieldsFrom] at hf
  | i, v :: items, f, hf => by
    rw [Value.metricFieldsFrom, List.mem_append, List.mem_map] at hf
    rcases hf with ⟨g, hg, rfl⟩ | hf
    · exact Value.metricType?_of_mem_metricFields v g hg
    · exact Value.metricType?_of_mem_metricFieldsFrom (i + 1) items f hf

end

mutual

/-- The readings of a value are those of its fields. -/
theorem Value.flatMap_readings : ∀ v : Value,
    v.metricFields.flatMap (fun f => f.value.readings) = v.readings
  | .document fields => by
    rw [Value.metricFields, Value.readings]
    exact Document.flatMap_readings fields
  | .array items => by
    rw [Value.metricFields, Value.readings]
    exact Value.flatMap_readingsFrom 0 items
  | .boolean _ | .int32 _ | .int64 _ | .double _ | .date _ | .timestamp _ _ | .text _ | .objectId _
  | .binary _ | .null => rfl

/-- The readings of a document are those of its metric-bearing fields. -/
theorem Document.flatMap_readings : ∀ fields : List (String × Value),
    (Document.metricFields fields).flatMap (fun f => f.value.readings) = Document.readings fields
  | [] => rfl
  | (key, v) :: fields => by
    rw [Document.metricFields, Document.readings, List.flatMap_append, List.flatMap_map,
      Document.flatMap_readings fields]
    exact congrArg (· ++ _) (Value.flatMap_readings v)

/-- The readings of items are those of their fields, wherever in an array the items stand. -/
theorem Value.flatMap_readingsFrom : ∀ (i : Nat) (items : List Value),
    (Value.metricFieldsFrom i items).flatMap (fun f => f.value.readings) = Value.readingsOfItems items
  | _, [] => rfl
  | i, v :: items => by
    rw [Value.metricFieldsFrom, Value.readingsOfItems, List.flatMap_append, List.flatMap_map,
      Value.flatMap_readingsFrom (i + 1) items]
    exact congrArg (· ++ _) (Value.flatMap_readings v)

end

mutual

/-- An outline tells where the fields of a value are. -/
theorem Value.places_outline : ∀ v : Value,
    v.outline.metricFields.map MetricField.place = v.metricFields.map MetricField.place
  | .document fields => by
    rw [Value.outline, Value.metricFields, Value.metricFields]
    exact Document.places_outline fields
  | .array items => by
    rw [Value.outline, Value.metricFields, Value.metricFields]
    exact Value.places_outlineOfItems 0 items
  | .boolean _ | .int32 _ | .int64 _ | .double _ | .date _ | .timestamp _ _ | .text _ | .objectId _
  | .binary _ | .null => rfl

/-- The outline of a document tells where its fields are. -/
theorem Document.places_outline : ∀ fields : List (String × Value),
    (Document.metricFields (Document.outline fields)).map MetricField.place =
      (Document.metricFields fields).map MetricField.place
  | [] => rfl
  | (key, v) :: fields => by
    rw [Document.outline, Document.metricFields, Document.metricFields, List.map_append, List.map_append,
      MetricField.map_place_under, MetricField.map_place_under, Value.places_outline v,
      Document.places_outline fields]

/-- The outlines of items tell where their fields are. -/
theorem Value.places_outlineOfItems : ∀ (i : Nat) (items : List Value),
    (Value.metricFieldsFrom i (Value.outlineOfItems items)).map MetricField.place =
      (Value.metricFieldsFrom i items).map MetricField.place
  | _, [] => rfl
  | i, v :: items => by
    rw [Value.outlineOfItems, Value.metricFieldsFrom, Value.metricFieldsFrom, List.map_append, List.map_append,
      MetricField.map_place_under, MetricField.map_place_under, Value.places_outline v,
      Value.places_outlineOfItems (i + 1) items]

end

/-! ## Words -/

/-- The reading that a word of a series of the given type stands for. -/
def Reading.ofWord (type : MetricType) (word : Int64) : Reading where
  type := type
  quantity :=
    match type with
    | .boolean => .integer (if word != 0 then 1 else 0)
    | .int32 => .integer word.toInt32.toInt64
    | .int64 => .integer word
    | .double => .double (Double.ofInt64 word)
    | .date => .integer word
    | .timestamp => .integer (wordOfHalf word.toUInt64.toUInt32)

mutual

/-- The word of a reading stands for that reading. -/
theorem Value.ofWord_readings : ∀ (v : Value), ∀ r ∈ v.readings,
    Reading.ofWord r.type r.quantity.toInt64 = r
  | .document fields, r, hr => Document.ofWord_readings fields r (by rwa [Value.readings] at hr)
  | .array items, r, hr => Value.ofWord_readingsOfItems items r (by rwa [Value.readings] at hr)
  | .boolean b, r, hr => by
    cases b <;> (simp [Value.readings] at hr; subst hr; rfl)
  | .int32 n, r, hr => by
    simp [Value.readings] at hr
    simp [hr, Reading.ofWord, Quantity.toInt64]
  | .int64 _, r, hr | .double _, r, hr | .date _, r, hr => by
    simp [Value.readings] at hr
    simp [hr, Reading.ofWord, Quantity.toInt64]
  | .timestamp _ _, r, hr => by
    simp [Value.readings] at hr
    rcases hr with rfl | rfl <;> simp [Reading.ofWord, Quantity.toInt64, wordOfHalf]
  | .text _, r, hr | .objectId _, r, hr | .binary _, r, hr | .null, r, hr => by
    simp [Value.readings] at hr

/-- The words of the readings of a document stand for them. -/
theorem Document.ofWord_readings : ∀ (fields : List (String × Value)),
    ∀ r ∈ Document.readings fields, Reading.ofWord r.type r.quantity.toInt64 = r
  | [], r, hr => by simp [Document.readings] at hr
  | (_, v) :: fields, r, hr => by
    rw [Document.readings, List.mem_append] at hr
    rcases hr with hr | hr
    · exact Value.ofWord_readings v r hr
    · exact Document.ofWord_readings fields r hr

/-- The words of the readings of items stand for them. -/
theorem Value.ofWord_readingsOfItems : ∀ (items : List Value),
    ∀ r ∈ Value.readingsOfItems items, Reading.ofWord r.type r.quantity.toInt64 = r
  | [], r, hr => by simp [Value.readingsOfItems] at hr
  | v :: items, r, hr => by
    rw [Value.readingsOfItems, List.mem_append] at hr
    rcases hr with hr | hr
    · exact Value.ofWord_readings v r hr
    · exact Value.ofWord_readingsOfItems items r hr

end

end Telemetry

import Telemetry.Chunk.Restore
import Telemetry.Proofs.Metric

/-!
# Samples come back from series

Restoring a sample walks the reference and takes one series for every reading of it. When there are as many
series as readings, and all of them have a value at the sample, the walk succeeds, keeps the outline of the
reference, and gives the values back as readings (`structured_eq`).

The walk over a part of the reference takes the series of that part and leaves the others, so the lemmas speak
of series `front ++ rest` of which the part takes `front`.
-/

namespace Telemetry.Chunk

/-- A series that has a value at the sample gives it. -/
theorem takeWord_cons {index : Nat} {s : Series} (h : index < s.values.size) (rest : List Series) :
    takeWord index (s :: rest) = .ok (s.values.getD index 0, rest) := by
  simp [takeWord, h, Array.getD]

/-- The reading that a series stands for at a sample, in place of a reading of the reference. -/
def readingAt (index : Nat) (r : Reading) (s : Series) : Reading :=
  Reading.ofWord r.type (s.values.getD index 0)

/-- What restoring a part of the reference from its series comes to: the metrics are the values of the series, and
everything that is no metric is that of the reference. -/
structure Restores {α : Type} (outline : α → α) (readings : α → List Reading) (index : Nat)
    (front : List Series) (before after : α) : Prop where
  outline_eq : outline after = outline before
  readings_eq : readings after = List.zipWith (readingAt index) (readings before) front

/-- A list as long as two lists together falls into two parts of their lengths. -/
private theorem exists_append_of_length {α : Type} {l : List α} {m n : Nat} (h : l.length = m + n) :
    ∃ a b, l = a ++ b ∧ a.length = m ∧ b.length = n :=
  ⟨l.take m, l.drop m, (List.take_append_drop m l).symm, by rw [List.length_take]; omega,
    by rw [List.length_drop]; omega⟩

/-- A metric that is no timestamp takes one series. -/
theorem restoreValue_metric {index : Nat} {v : Value} {type : MetricType}
    (hmetric : v.metricType? = some type) (htype : type ≠ .timestamp) {s : Series}
    (hs : index < s.values.size) (rest : List Series) :
    restoreValue index v (s :: rest) = .ok (type.restore (s.values.getD index 0), rest) := by
  cases v <;> simp only [Value.metricType?, Option.some.injEq, reduceCtorEq] at hmetric
  case timestamp => exact absurd hmetric.symm htype
  all_goals
    subst hmetric
    simp [restoreValue, Value.metricType?, takeWord_cons hs, bind, Except.bind]

mutual

/-- A value comes back from as many series as it has readings. -/
theorem restoreValue_eq (index : Nat) : ∀ (v : Value) (front rest : List Series),
    front.length = v.readings.length → (∀ s ∈ front, index < s.values.size) →
    ∃ v', restoreValue index v (front ++ rest) = .ok (v', rest) ∧
      Restores Value.outline Value.readings index front v v'
  | .document fields, front, rest, hlen, hsize => by
    rw [Value.readings] at hlen
    obtain ⟨fields', heq, houtline, hreadings⟩ := restoreFields_eq index fields front rest hlen hsize
    refine ⟨.document fields', by rw [restoreValue, heq]; rfl, ?_, ?_⟩
    · rw [Value.outline, Value.outline, houtline]
    · rw [Value.readings, Value.readings, hreadings]
  | .array items, front, rest, hlen, hsize => by
    rw [Value.readings] at hlen
    obtain ⟨items', heq, houtline, hreadings⟩ := restoreItems_eq index items front rest hlen hsize
    refine ⟨.array items', by rw [restoreValue, heq]; rfl, ?_, ?_⟩
    · rw [Value.outline, Value.outline, houtline]
    · rw [Value.readings, Value.readings, hreadings]
  -- a timestamp is the one value with two readings: seconds, and then the ordinal
  | .timestamp _ _, front, rest, hlen, hsize => by
    obtain ⟨a, b, rfl, ha, hb⟩ := exists_append_of_length (m := 1) (n := 1) hlen
    obtain ⟨s, rfl⟩ := List.length_eq_one_iff.mp ha
    obtain ⟨t, rfl⟩ := List.length_eq_one_iff.mp hb
    have hs := takeWord_cons (hsize s (by simp)) (t :: rest)
    have ht := takeWord_cons (hsize t (by simp)) rest
    refine ⟨restoreTimestamp (s.values.getD index 0) (t.values.getD index 0), ?_, rfl, rfl⟩
    simp [restoreValue, hs, ht, bind, Except.bind]
  | .boolean _, front, rest, hlen, hsize | .int32 _, front, rest, hlen, hsize
  | .int64 _, front, rest, hlen, hsize | .double _, front, rest, hlen, hsize
  | .date _, front, rest, hlen, hsize => by
    obtain ⟨s, rfl⟩ := List.length_eq_one_iff.mp hlen
    exact ⟨_, restoreValue_metric rfl (by decide) (hsize s (by simp)) rest, rfl, rfl⟩
  | .text _, front, rest, hlen, _ | .objectId _, front, rest, hlen, _
  | .binary _, front, rest, hlen, _ | .null, front, rest, hlen, _ => by
    obtain rfl := List.length_eq_zero_iff.mp hlen
    exact ⟨_, rfl, rfl, rfl⟩

/-- Fields come back from as many series as they have readings. -/
theorem restoreFields_eq (index : Nat) : ∀ (fields : List (String × Value)) (front rest : List Series),
    front.length = (Document.readings fields).length → (∀ s ∈ front, index < s.values.size) →
    ∃ fields', restoreFields index fields (front ++ rest) = .ok (fields', rest) ∧
      Restores Document.outline Document.readings index front fields fields'
  | [], front, rest, hlen, _ => by
    obtain rfl := List.length_eq_zero_iff.mp hlen
    exact ⟨[], rfl, rfl, rfl⟩
  | (key, v) :: fields, front, rest, hlen, hsize => by
    rw [Document.readings, List.length_append] at hlen
    obtain ⟨a, b, rfl, ha, hb⟩ := exists_append_of_length hlen
    obtain ⟨v', hv, houtline, hreadings⟩ :=
      restoreValue_eq index v a (b ++ rest) ha fun s hs => hsize s (by simp [hs])
    obtain ⟨fields', hfields, houtline', hreadings'⟩ :=
      restoreFields_eq index fields b rest hb fun s hs => hsize s (by simp [hs])
    refine ⟨(key, v') :: fields', ?_, ?_, ?_⟩
    · simp [restoreFields, List.append_assoc, hv, hfields, bind, Except.bind]
    · rw [Document.outline, Document.outline, houtline, houtline']
    · rw [Document.readings, Document.readings, hreadings, hreadings', List.zipWith_append ha.symm]

/-- Items come back from as many series as they have readings. -/
theorem restoreItems_eq (index : Nat) : ∀ (items : List Value) (front rest : List Series),
    front.length = (Value.readingsOfItems items).length → (∀ s ∈ front, index < s.values.size) →
    ∃ items', restoreItems index items (front ++ rest) = .ok (items', rest) ∧
      Restores Value.outlineOfItems Value.readingsOfItems index front items items'
  | [], front, rest, hlen, _ => by
    obtain rfl := List.length_eq_zero_iff.mp hlen
    exact ⟨[], rfl, rfl, rfl⟩
  | v :: items, front, rest, hlen, hsize => by
    rw [Value.readingsOfItems, List.length_append] at hlen
    obtain ⟨a, b, rfl, ha, hb⟩ := exists_append_of_length hlen
    obtain ⟨v', hv, houtline, hreadings⟩ :=
      restoreValue_eq index v a (b ++ rest) ha fun s hs => hsize s (by simp [hs])
    obtain ⟨items', hitems, houtline', hreadings'⟩ :=
      restoreItems_eq index items b rest hb fun s hs => hsize s (by simp [hs])
    refine ⟨v' :: items', ?_, ?_, ?_⟩
    · simp [restoreItems, List.append_assoc, hv, hitems, bind, Except.bind]
    · rw [Value.outlineOfItems, Value.outlineOfItems, houtline, houtline']
    · rw [Value.readingsOfItems, Value.readingsOfItems, hreadings, hreadings',
        List.zipWith_append ha.symm]

end

/-- A sample comes back from a chunk that has one series for each reading of its reference, every series
with a value for the sample. -/
theorem structured_eq {c : Chunk} {index : Nat} (hindex : index < c.length)
    (hlen : c.series.length = (Document.readings c.reference).length)
    (hsize : ∀ s ∈ c.series, index < s.values.size) :
    ∃ d, c.structured index = .ok d ∧
      Restores Document.outline Document.readings index c.series c.reference d := by
  obtain ⟨d, heq, hrestores⟩ := restoreFields_eq index c.reference c.series [] hlen hsize
  rw [List.append_nil] at heq
  refine ⟨d, ?_, hrestores⟩
  rw [structured, if_neg (by omega)]
  simp [restore, heq, bind, Except.bind]

end Telemetry.Chunk

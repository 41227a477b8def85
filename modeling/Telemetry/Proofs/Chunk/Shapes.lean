import Mathlib.Data.List.Forall2
import Telemetry.Proofs.Chunk.Consistency

/-!
# The shapes of a sample agree

A sample is restored in the shape of the reference by walking the reference, and under dotted keys by walking the
series and putting the halves of timestamps together again. The second walk sees neither nesting nor field
boundaries: two timestamp series in a row with one path count as one timestamp. That this finds the fields of the
reference again, also where timestamps with one path follow each other, is `pairTimestamps_field`: the series of
a field are the front of what is left, and the walk takes exactly them.

So the flattened sample is the list of the metric-bearing fields of the structured one, and the matrix holds the
flattened samples column by column (`Chunk.shapes_agree`).
-/

namespace Telemetry

/-! ## Values with one reading -/

/-- The value that a word is restored to has the reading that the word stands for. -/
theorem MetricType.readings_restore {type : MetricType} (htype : type ≠ .timestamp) (word : Int64) :
    (type.restore word).readings = [Reading.ofWord type word] := by
  cases type <;> first | rfl | exact absurd rfl htype

theorem MetricType.metricType?_restore {type : MetricType} (htype : type ≠ .timestamp) (word : Int64) :
    (type.restore word).metricType? = some type := by
  cases type <;> first | rfl | exact absurd rfl htype

/-- Metrics of one type with the same readings are equal. -/
theorem Value.eq_of_metricType?_of_readings {v w : Value} {type : MetricType} (hv : v.metricType? = some type)
    (hw : w.metricType? = some type) (h : v.readings = w.readings) : v = w := by
  apply Value.eq_of_outline_of_readings _ h
  cases v <;> simp only [Value.metricType?, Option.some.injEq, reduceCtorEq] at hv
  all_goals
    subst hv
    cases w <;> simp only [Value.metricType?, Option.some.injEq, reduceCtorEq] at hw
    rfl

theorem Value.exists_timestamp_of_metricType? {v : Value} (hv : v.metricType? = some .timestamp) :
    ∃ s n, v = .timestamp s n := by
  cases v <;> simp only [Value.metricType?, Option.some.injEq, reduceCtorEq] at hv
  exact ⟨_, _, rfl⟩

/-- A metric has as many readings as its type has series. -/
theorem Value.length_readings_of_metricType? {v : Value} {type : MetricType} (hv : v.metricType? = some type) :
    v.readings.length = type.width := by
  cases v <;> simp only [Value.metricType?, Option.some.injEq, reduceCtorEq] at hv
  all_goals
    subst hv
    rfl

/-- A metric starts as many series as its type has. -/
theorem MetricField.length_heads {f : MetricField} (hf : f.value.metricType? = some f.type) :
    f.heads.length = f.type.width := by
  obtain ⟨path, value, type⟩ := f
  cases value <;> simp only [Value.metricType?, Option.some.injEq, reduceCtorEq] at hf
  all_goals
    subst hf
    rfl

namespace Chunk

/-! ## Series back to fields -/

/-- A series that is no half of a timestamp stands by itself. -/
theorem pairTimestamps_single {s : Series} (hs : s.type ≠ .timestamp) (rest : List Series) :
    pairTimestamps (s :: rest) = .single s :: pairTimestamps rest := by
  cases rest with
  | nil => rfl
  | cons t rest => rw [pairTimestamps, if_neg fun h => hs h.1]

/-- Two timestamp series with one path belong together. -/
theorem pairTimestamps_halves {s t : Series} (hs : s.type = .timestamp) (ht : t.type = .timestamp)
    (hpath : t.path = s.path) (rest : List Series) :
    pairTimestamps (s :: t :: rest) = .halves s t :: pairTimestamps rest := by
  rw [pairTimestamps, if_pos ⟨hs, ht, hpath⟩]

/-- The series of a field are put together again, and stand for the field of any sample whose readings they are. -/
theorem pairTimestamps_field {f : MetricField} (hf : f.value.metricType? = some f.type) {front : List Series}
    (hfront : front.map Series.toSeriesHead = f.heads) (rest : List Series) :
    ∃ g, pairTimestamps (front ++ rest) = g :: pairTimestamps rest ∧ g.key = f.key ∧
      ∀ {i : Nat} {v : Value}, v.metricType? = some f.type →
        v.readings = List.zipWith (readingAt i) f.value.readings front → g.valueAt i = v := by
  obtain ⟨path, value, type⟩ := f
  cases value <;> simp only [Value.metricType?, Option.some.injEq, reduceCtorEq] at hf
  case timestamp seconds increment =>
    subst hf
    simp only [MetricField.heads, Value.starts, List.map_cons, List.map_nil, List.map_eq_cons_iff,
      List.map_eq_nil_iff] at hfront
    obtain ⟨s, _, rfl, hs, t, _, rfl, ht, rfl⟩ := hfront
    have hstype : s.type = .timestamp := congrArg SeriesHead.type hs
    have httype : t.type = .timestamp := congrArg SeriesHead.type ht
    have hspath : s.path = path := congrArg SeriesHead.path hs
    have htpath : t.path = path := congrArg SeriesHead.path ht
    refine ⟨.halves s t, pairTimestamps_halves hstype httype (htpath.trans hspath.symm) rest, ?_, ?_⟩
    · rw [FieldSeries.key, SeriesHead.key, hspath]
      rfl
    · intro i v hv hreadings
      exact Value.eq_of_metricType?_of_readings rfl hv hreadings.symm
  all_goals
    subst hf
    simp only [MetricField.heads, Value.starts, List.map_cons, List.map_nil, List.map_eq_cons_iff,
      List.map_eq_nil_iff] at hfront
    obtain ⟨s, _, rfl, hs, rfl⟩ := hfront
    have htype := congrArg SeriesHead.type hs
    have hpath := congrArg SeriesHead.path hs
    dsimp only at htype hpath
    have hne : s.type ≠ .timestamp := by
      rw [htype]
      decide
    refine ⟨.single s, pairTimestamps_single hne rest, ?_, ?_⟩
    · rw [FieldSeries.key, SeriesHead.key, hpath]
      rfl
    · intro i v hv hreadings
      rw [FieldSeries.valueAt, htype]
      refine Value.eq_of_metricType?_of_readings (MetricType.metricType?_restore (by decide) _) hv ?_
      rw [hreadings, MetricType.readings_restore (by decide)]
      rfl

/-- Fields that stand where those of the reference stand, and whose readings are those of the series, are what the
series are put together to. -/
theorem pairTimestamps_eq {i : Nat} {fields : List MetricField}
    (hfields : ∀ f ∈ fields, f.value.metricType? = some f.type) :
    ∀ {series : List Series} {es : List MetricField}, (∀ e ∈ es, e.value.metricType? = some e.type) →
      series.map Series.toSeriesHead = fields.flatMap MetricField.heads →
      es.map MetricField.place = fields.map MetricField.place →
      es.flatMap (fun e => e.value.readings) =
        List.zipWith (readingAt i) (fields.flatMap fun f => f.value.readings) series →
      (pairTimestamps series).map (fun g => (g.key, g.valueAt i)) = es.map fun e => (e.key, e.value) := by
  induction fields with
  | nil =>
    intro series es _ hseries hplaces _
    obtain rfl := List.map_eq_nil_iff.mp hseries
    obtain rfl := List.map_eq_nil_iff.mp hplaces
    rfl
  | cons f fields ih =>
    intro series es hes hseries hplaces hreadings
    cases es with
    | nil => simp at hplaces
    | cons e es =>
      rw [List.flatMap_cons] at hseries
      obtain ⟨front, rest, rfl, hfront, hrest⟩ := List.map_eq_append_iff.mp hseries
      simp only [List.map_cons, List.cons.injEq] at hplaces
      obtain ⟨hplace, hplaces⟩ := hplaces
      have hpath : e.path = f.path := congrArg Prod.fst hplace
      have htype : e.type = f.type := congrArg Prod.snd hplace
      have hf := hfields f List.mem_cons_self
      have he := hes e List.mem_cons_self
      rw [htype] at he
      have hwidth : front.length = f.type.width := by
        rw [← MetricField.length_heads hf, ← hfront, List.length_map]
      have hlen : f.value.readings.length = front.length := by
        rw [hwidth, Value.length_readings_of_metricType? hf]
      have hlen' : e.value.readings.length = front.length := by
        rw [hwidth, Value.length_readings_of_metricType? he]
      rw [List.flatMap_cons, List.flatMap_cons, List.zipWith_append hlen] at hreadings
      obtain ⟨hhere, hmore⟩ := List.append_inj hreadings (by simp [hlen, hlen'])
      obtain ⟨g, hg, hkey, hvalue⟩ := pairTimestamps_field hf hfront rest
      rw [hg, List.map_cons, List.map_cons, hvalue he hhere, hkey, MetricField.key, MetricField.key, hpath,
        ih (fun f' hf' => hfields f' (List.mem_cons_of_mem f hf'))
          (fun e' he' => hes e' (List.mem_cons_of_mem e he')) hrest hplaces hmore]

/-! ## Columns -/

namespace FieldSeries

/-- The series that a field was put together from. -/
def parts : FieldSeries → List Series
  | .single s => [s]
  | .halves s t => [s, t]

/-- The values of a field over the chunk are its values at the samples. -/
theorem values_eq {g : FieldSeries} {n : Nat} (h : ∀ s ∈ g.parts, s.values.size = n) :
    g.values.length = n ∧ ∀ i < n, g.values[i]? = some (g.valueAt i) := by
  cases g with
  | single s =>
    have hs := h s (by simp [parts])
    refine ⟨by simp [values, hs], ?_⟩
    intro i hi
    simp [values, valueAt, hs, hi, Array.getD]
  | halves s t =>
    have hs := h s (by simp [parts])
    have ht := h t (by simp [parts])
    refine ⟨by simp [values, hs, ht], ?_⟩
    intro i hi
    simp [values, valueAt, hs, ht, hi, Array.getD]

end FieldSeries

/-- Putting timestamps together neither loses a series nor makes one up. -/
theorem flatMap_parts_pairTimestamps (series : List Series) :
    (pairTimestamps series).flatMap FieldSeries.parts = series := by
  induction series using pairTimestamps.induct with
  | case1 => rfl
  | case2 s => rfl
  | case3 s t rest h ih =>
    rw [pairTimestamps, if_pos h, List.flatMap_cons, ih]
    rfl
  | case4 s t rest h ih =>
    rw [pairTimestamps, if_neg h, List.flatMap_cons, ih]
    rfl

/-! ## All three shapes -/

namespace InStep

variable {c : Chunk}

/-- The flattened sample lists the metric-bearing fields of the structured one. -/
theorem flattened_eq (h : c.InStep) {i : Nat} (hi : i < c.length) {d : Document} (hd : c.structured i = .ok d) :
    c.flattened i = .ok ((Document.metricFields d).map fun f => (f.key, f.value)) := by
  obtain ⟨d', hd', houtline, hreadings⟩ := h.exists_structured_eq hi
  obtain rfl := Except.ok.inj (hd.symm.trans hd')
  have hplaces : (Document.metricFields d).map MetricField.place =
      (Document.metricFields c.reference).map MetricField.place := by
    rw [← Document.places_outline d, houtline, Document.places_outline]
  have hseries : c.series.map Series.toSeriesHead =
      (Document.metricFields c.reference).flatMap MetricField.heads := h.heads_eq
  rw [← Document.flatMap_readings d, ← Document.flatMap_readings c.reference] at hreadings
  rw [flattened, if_neg (by omega),
    pairTimestamps_eq (Document.metricType?_of_mem_metricFields c.reference)
      (Document.metricType?_of_mem_metricFields d) hseries hplaces hreadings]

/-- The fields that the series are put together to have a value for each sample. -/
theorem values_eq (h : c.InStep) {g : FieldSeries} (hg : g ∈ pairTimestamps c.series) :
    g.values.length = c.length ∧ ∀ i < c.length, g.values[i]? = some (g.valueAt i) := by
  apply FieldSeries.values_eq
  intro s hs
  apply h.size_eq
  rw [← flatMap_parts_pairTimestamps c.series]
  exact List.mem_flatMap.mpr ⟨g, hg, hs⟩

end InStep

/-- The shapes in which a decoded chunk gives its samples agree: flattened, a sample is the list of the
metric-bearing fields of the structured sample, each under its dotted key and a timestamp as a whole; and the
matrix has those keys, each with the values that stand there in the flattened samples. -/
theorem shapes_agree {metadata? : Option Document} {body : Bytes} {c : Chunk}
    (h : ofBody metadata? body = .ok c) :
    (∀ i < c.length, ∃ d, c.structured i = .ok d ∧
      c.flattened i = .ok ((Document.metricFields d).map fun f => (f.key, f.value)) ∧
      ∀ f ∈ Document.metricFields d, f.type = .timestamp → ∃ s n, f.value = .timestamp s n) ∧
    ∃ columns : List (String × List Value),
      c.matrix = columns.map (fun (key, values) => (key, .array values)) ∧
      (∀ column ∈ columns, column.2.length = c.length) ∧
      ∀ i < c.length, ∃ flat, c.flattened i = .ok flat ∧
        List.Forall₂ (fun (key, v) (key', values) => key = key' ∧ values[i]? = some v) flat columns := by
  have hstep := inStep_of_ofBody h
  refine ⟨?_, (pairTimestamps c.series).map (fun g => (g.key, g.values)), ?_, ?_, ?_⟩
  · intro i hi
    obtain ⟨d, hd, -⟩ := hstep.exists_structured_eq hi
    refine ⟨d, hd, hstep.flattened_eq hi hd, ?_⟩
    intro f hf htype
    exact Value.exists_timestamp_of_metricType? (htype ▸ Document.metricType?_of_mem_metricFields d f hf)
  · rw [matrix, List.map_map]
    rfl
  · intro column hcolumn
    obtain ⟨g, hg, rfl⟩ := List.mem_map.mp hcolumn
    exact (hstep.values_eq hg).1
  · intro i hi
    refine ⟨_, by rw [flattened, if_neg (by omega)], ?_⟩
    rw [List.forall₂_map_left_iff, List.forall₂_map_right_iff, List.forall₂_same]
    intro g hg
    exact ⟨rfl, (hstep.values_eq hg).2 i hi⟩

set_option maxRecDepth 2000 in
/-- Two timestamps in a row under one key stay two. -/
theorem shapes_agree_one_key :
    ∃ body c, ofBody none body = .ok c ∧
      c.structured 1 = .ok [("t", .timestamp 8 1), ("t", .timestamp 8 5)] ∧
      c.flattened 1 = .ok [("t", .timestamp 8 1), ("t", .timestamp 8 5)] := by
  have hbody : ofBody none [68, 0, 0, 0, 120, 1, 1, 68, 0, 187, 255, 54, 0, 0, 0, 2, 0, 0, 0, 0, 0, 0, 0, 1, 0, 0, 0,
      0, 0, 0, 0, 116, 5, 0, 0, 0, 7, 0, 0, 0, 1, 0, 0, 0, 1, 0, 0, 0, 0, 0, 0, 0, 116, 5, 0, 0, 0, 8, 0, 0, 0, 2,
      0, 0, 0, 4, 0, 0, 0, 1, 0, 0, 0, 1, 0, 0, 0, 0, 3, 53, 83, 1, 72] =
      .ok ⟨[("t", .timestamp 7 1), ("t", .timestamp 8 2)], none,
        [⟨⟨["t"], .timestamp, 7⟩, #[7, 8]⟩, ⟨⟨["t"], .timestamp, 1⟩, #[1, 1]⟩,
          ⟨⟨["t"], .timestamp, 8⟩, #[8, 8]⟩, ⟨⟨["t"], .timestamp, 2⟩, #[2, 5]⟩], 1⟩ := by
    with_unfolding_all rfl
  obtain ⟨d, hd, hflat, -⟩ := (shapes_agree hbody).1 1 (by decide)
  obtain rfl := Except.ok.inj hd
  exact ⟨_, _, hbody, hd, hflat⟩

end Chunk

end Telemetry

import Telemetry.Proofs.Chunk.Restore
import Telemetry.Proofs.Collector.Window
import Telemetry.Proofs.Double

/-!
# A chunk and the samples it was made from

`Chunk.Represents` says what a decoded chunk has to do with samples: the first sample is its reference, and
each series holds the words of one metric. A double is stored by its steps, so its series holds the bits of the
first double and the sum of the bits of all differences so far, which is not in general the bits of the double.

The payload of samples is decoded to a chunk that represents them (`ofPayload_chunkPayload`), and the samples of
such a chunk come back as far as their outlines and doubles allow (`Represents.exists_structured_eq`,
`Represents.structured_eq_sample`).
-/

namespace Telemetry

/-! ## Counts -/

mutual

/-- Every reading of a value takes a byte of it. -/
theorem Value.length_readings_le : ∀ v : Value, v.readings.length ≤ v.encode.length
  | .document fields => by
    have := Document.length_readings_le_encodeFields fields
    simp only [Value.readings, Value.encode, List.length_append]
    omega
  | .array items => by
    have := Value.length_readingsOfItems_le items
    simp only [Value.readings, Value.encode, List.length_append]
    omega
  | .timestamp _ _ => by simp [Value.readings, Value.encode]
  | .boolean _ | .int32 _ | .int64 _ | .double _ | .date _ => by
    simp [Value.readings, Value.encode]
  | .text _ | .objectId _ | .binary _ | .null => Nat.zero_le _

/-- Every reading of fields takes a byte of them. -/
theorem Document.length_readings_le_encodeFields : ∀ fields : List (String × Value),
    (Document.readings fields).length ≤ (Document.encodeFields fields).length
  | [] => Nat.le_refl 0
  | (_, v) :: fields => by
    have := Value.length_readings_le v
    have := Document.length_readings_le_encodeFields fields
    simp only [Document.readings, Document.encodeFields, List.length_append]
    omega

/-- Every reading of items takes a byte of them. -/
theorem Value.length_readingsOfItems_le : ∀ items : List Value,
    (Value.readingsOfItems items).length ≤ (Value.encodeItems items).length
  | [] => Nat.le_refl 0
  | v :: items => by
    have := Value.length_readings_le v
    have := Value.length_readingsOfItems_le items
    simp only [Value.readingsOfItems, Value.encodeItems, List.length_append]
    omega

end

theorem Document.length_readings_le_size (d : Document) : (Document.readings d).length ≤ d.size := by
  have := Document.length_readings_le_encodeFields d
  simp only [Document.size, Document.encodeBody, List.length_append]
  omega

/-! ## Sums of steps -/

/-- The bits of the differences from each double to the next. -/
def Double.differences (x : Double) : List Double → List Int64
  | [] => []
  | y :: ys => (y - x).toInt64 :: differences y ys

theorem Double.take_differences (x : Double) (ys : List Double) (i : Nat) :
    (differences x ys).take i = differences x (ys.take i) := by
  induction ys generalizing x i with
  | nil => simp [differences]
  | cons y ys ih =>
    cases i with
    | zero => rfl
    | succ i => rw [differences, List.take_succ_cons, List.take_succ_cons, differences, ih]

/-- A finite double that stays as it is takes steps of zero. -/
theorem Double.sum_differences_of_eq {x : Double} (hx : x.isFinite = true) {ys : List Double}
    (h : ∀ y ∈ ys, y = x) : (differences x ys).sum = 0 := by
  induction ys with
  | nil => rfl
  | cons y ys ih =>
    obtain rfl := h y (by simp)
    rw [differences, List.sum_cons, ih fun z hz => h z (by simp [hz]), Double.sub_self hx]
    rfl

private theorem foldl_add_eq (start : Int64) (deltas : List Int64) :
    deltas.foldl (· + ·) start = start + deltas.sum := by
  induction deltas generalizing start with
  | nil => simp
  | cons d deltas ih => rw [List.foldl_cons, ih, List.sum_cons, Int64.add_assoc]

namespace Document

theorem take_steps (metric : Nat) (first : Document) (rest : List Document) (i : Nat) :
    (steps metric first rest).take i = steps metric first (rest.take i) := by
  induction rest generalizing first i with
  | nil => simp [steps]
  | cons d rest ih =>
    cases i with
    | zero => rfl
    | succ i => rw [steps, List.take_succ_cons, List.take_succ_cons, steps, ih]

/-- The steps of an integer add up to the way from the first sample to the last. -/
theorem foldl_steps {metric : Nat} {first : Document} {rest : List Document}
    (h : ∀ d ∈ first :: rest, ∃ n, quantity metric d = .integer n) :
    (steps metric first rest).foldl (· + ·) (quantity metric first).toInt64 =
      (quantity metric (rest.getLastD first)).toInt64 := by
  induction rest generalizing first with
  | nil => rfl
  | cons d rest ih =>
    obtain ⟨m, hm⟩ := h first (by simp)
    obtain ⟨n, hn⟩ := h d (by simp)
    have hstep : (quantity metric first).toInt64 + step metric first d = (quantity metric d).toInt64 := by
      rw [step, hm, hn]
      show m + (n - m) = n
      rw [Int64.add_comm, Int64.sub_add_cancel]
    rw [steps, List.foldl_cons, hstep, List.getLastD_cons]
    exact ih fun e he => h e (by simp only [List.mem_cons] at he ⊢; exact .inr he)

/-- The steps of doubles are the bits of their differences. -/
theorem steps_eq_differences {metric : Nat} {first : Document} {rest : List Document} {x : Double}
    {xs : List Double} (hfirst : quantity metric first = .double x)
    (hrest : rest.map (quantity metric) = xs.map Quantity.double) :
    steps metric first rest = Double.differences x xs := by
  induction rest generalizing first x xs with
  | nil =>
    obtain rfl : xs = [] := by simpa using hrest.symm
    rfl
  | cons d rest ih =>
    cases xs with
    | nil => simp at hrest
    | cons y ys =>
      obtain ⟨hd, hrest⟩ : quantity metric d = .double y ∧
        rest.map (quantity metric) = ys.map Quantity.double := by simpa using hrest
      rw [steps, Double.differences, step, hfirst, hd, ih hd hrest]
      rfl

end Document

/-! ## What a chunk says of samples -/

/-- An outline tells the types of the readings. -/
theorem Document.types_eq_of_outline {d e : Document} (h : Document.outline d = Document.outline e) :
    Document.types d = Document.types e := by
  rw [types, ← Document.types_outline, h, Document.types_outline, types]

/-- The type of a reading tells whether it is a double. -/
theorem Document.exists_double_of_type {d : Document} {r : Reading} (hr : r ∈ Document.readings d)
    (htype : r.type = .double) : ∃ x, r = ⟨.double, .double x⟩ := by
  have hword := Document.ofWord_readings d r hr
  rw [htype] at hword
  exact ⟨_, hword.symm⟩

theorem Document.exists_integer_of_type {d : Document} {r : Reading} (hr : r ∈ Document.readings d)
    (htype : r.type ≠ .double) : ∃ n, r.quantity = .integer n := by
  have hword := Document.ofWord_readings d r hr
  rw [← hword]
  cases hcases : r.type
  case double => exact absurd hcases htype
  all_goals exact ⟨_, rfl⟩

namespace Chunk

/-- A chunk that was made from the given samples. The first of them is the reference, every sample counts, and there
is one series for every metric of the reference, with a value for every sample.

A metric that is no double has in each sample the value that was taken from it. A double has in each sample its first
bits and the sum of the bits of its differences so far. -/
structure Represents (c : Chunk) (first : Document) (rest : List Document) : Prop where
  reference_eq : c.reference = first
  length_eq : c.length = rest.length + 1
  heads_eq : c.series.map Series.toSeriesHead = Document.schema first
  size_eq : ∀ s ∈ c.series, s.values.size = rest.length + 1
  integer_eq : ∀ {metric : Nat} {s : Series}, c.series[metric]? = some s → s.type ≠ .double →
    ∀ {i : Nat} {d : Document}, (first :: rest)[i]? = some d →
      ∃ r, (Document.readings d)[metric]? = some r ∧ s.values[i]? = some r.quantity.toInt64
  double_eq : ∀ {metric : Nat} {s : Series}, c.series[metric]? = some s → s.type = .double →
    ∃ x xs, (first :: rest).map (fun d => (Document.readings d)[metric]?) =
        (x :: xs).map (fun y => some (Reading.mk .double (.double y))) ∧
      ∀ i ≤ rest.length,
        s.values[i]? = some (x.toInt64 + (Double.differences x (xs.take i)).sum)

/-- The chunk with the series of the given samples. -/
def ofSamples (metadata? : Option Document) (first : Document) (rest : List Document) : Chunk where
  reference := first
  metadata? := metadata?
  series := ((Document.schema first).zip ((List.range (Document.readings first).length).map
    fun metric => Document.steps metric first rest)).map fun (head, column) =>
      { toSeriesHead := head, values := Delta.runningSums head.start column }
  deltas := rest.length

/-- The payload of samples is decoded by its counts and its columns. The number of samples is what is left of it in its
field. -/
theorem ofPayload_chunkPayload_eq {first : Document} {rest : List Document}
    (hsize : (Window.chunkPayload first rest).length ≤ maxPayloadSize) (metadata? : Option Document) :
    ofPayload metadata? (Window.chunkPayload first rest) =
      match Delta.decode (Document.readings first).length (rest.length % UInt32.size)
        (((List.range (Document.readings first).length).map
          fun metric => Document.steps metric first rest).flatMap Delta.encodeColumn) with
      | .error fault => .error (.corruption fault)
      | .ok (columns, _) =>
        let series : List Series := ((Document.schema first).zip columns).map fun (head, column) =>
          ⟨head, Delta.runningSums head.start column⟩
        .ok ⟨first, metadata?, series, rest.length % UInt32.size⟩ := by
  have hword : maxPayloadSize < UInt32.size := by decide
  have hfirst : Document.size first < UInt32.size := by
    simp only [Window.chunkPayload, List.length_append, Document.length_bytes] at hsize
    omega
  have hmetrics := Document.length_readings_le_size first
  have hcounts : Bytes.split? 8 (Bytes.ofNat 4 (Document.readings first).length ++
      (Bytes.ofNat 4 rest.length ++ ((List.range (Document.readings first).length).map
        fun metric => Document.steps metric first rest).flatMap Delta.encodeColumn)) =
      some (Bytes.ofNat 4 (Document.readings first).length ++ Bytes.ofNat 4 rest.length,
        ((List.range (Document.readings first).length).map
          fun metric => Document.steps metric first rest).flatMap Delta.encodeColumn) := by
    rw [Bytes.split?_eq_some_iff]
    simp
  have hm : Bytes.toNat (Bytes.ofNat 4 (Document.readings first).length) =
      (Document.readings first).length := Bytes.toNat_ofNat_of_lt (Nat.lt_of_le_of_lt hmetrics hfirst)
  have hn : Bytes.toNat (Bytes.ofNat 4 rest.length) = rest.length % UInt32.size := Bytes.toNat_ofNat 4 _
  rw [ofPayload, Window.chunkPayload, List.append_assoc, List.append_assoc,
    Document.decode_bytes hfirst]
  simp only [← Document.length_bytes first, List.drop_left, hcounts]
  simp only [List.take_left' (Bytes.length_ofNat 4 _), List.drop_left' (Bytes.length_ofNat 4 _), hm, hn]
  exact if_neg (by simp)

/-- The chunk comes back from the payload of the samples, if it is within the limits of a reader. -/
theorem ofPayload_chunkPayload {first : Document} {rest : List Document}
    (hsize : (Window.chunkPayload first rest).length ≤ maxPayloadSize)
    (hcount : rest.length ≤ maxChunkValues)
    (hvalues : (Document.readings first).length * rest.length ≤ maxChunkValues)
    (metadata? : Option Document) :
    ofPayload metadata? (Window.chunkPayload first rest) = .ok (ofSamples metadata? first rest) := by
  have hcolumns : ∀ column ∈ (List.range (Document.readings first).length).map
      (fun metric => Document.steps metric first rest), column.length = rest.length := by
    intro column hcolumn
    obtain ⟨metric, -, rfl⟩ := List.mem_map.mp hcolumn
    exact Document.length_steps metric first rest
  have hdecode := Delta.decode_flatMap [] hcolumns (by simpa using hvalues) hcount
  rw [List.append_nil, List.length_map, List.length_range] at hdecode
  have hfits : rest.length % UInt32.size = rest.length :=
    Nat.mod_eq_of_lt (Nat.lt_of_le_of_lt hcount (by decide))
  rw [ofPayload_chunkPayload_eq hsize, hfits, hdecode]
  rfl

/-- A chunk that comes of the payload of samples and has as many samples is within the limits of a reader. -/
theorem limits_of_ofPayload_chunkPayload {first : Document} {rest : List Document}
    (hsize : (Window.chunkPayload first rest).length ≤ maxPayloadSize) {metadata? : Option Document} {c : Chunk}
    (h : ofPayload metadata? (Window.chunkPayload first rest) = .ok c) (hlength : c.length = rest.length + 1) :
    rest.length ≤ maxChunkValues ∧ (Document.readings first).length * rest.length ≤ maxChunkValues := by
  rw [ofPayload_chunkPayload_eq hsize] at h
  split at h
  · simp at h
  · next columns _ hdecode =>
    obtain rfl := Except.ok.inj h
    have hcount : rest.length % UInt32.size = rest.length := Nat.succ.inj hlength
    rw [hcount] at hdecode
    obtain ⟨hvalues, hsamples⟩ := Delta.limits_of_decode hdecode
    exact ⟨hsamples, hvalues⟩

/-- A chunk that comes of the payload of samples is that of the samples, if their number fits its field. -/
theorem eq_ofSamples_of_ofPayload {first : Document} {rest : List Document}
    (hsize : (Window.chunkPayload first rest).length ≤ maxPayloadSize) (hfits : rest.length < UInt32.size)
    {metadata? : Option Document} {c : Chunk} (h : ofPayload metadata? (Window.chunkPayload first rest) = .ok c) :
    c = ofSamples metadata? first rest := by
  have hlength : c.length = rest.length + 1 := by
    rw [ofPayload_chunkPayload_eq hsize, Nat.mod_eq_of_lt hfits] at h
    split at h
    · simp at h
    · rw [← Except.ok.inj h]
      rfl
  obtain ⟨hcount, hvalues⟩ := limits_of_ofPayload_chunkPayload hsize h hlength
  rw [ofPayload_chunkPayload hsize hcount hvalues] at h
  exact (Except.ok.inj h).symm

private theorem types_of_mem {first d : Document} {rest : List Document}
    (htypes : ∀ d ∈ rest, Document.types d = Document.types first) (hd : d ∈ first :: rest) :
    Document.types d = Document.types first := by
  rcases List.mem_cons.mp hd with rfl | hd
  · rfl
  · exact htypes d hd

/-- Samples of the same types have a reading of the same type for each metric. -/
theorem exists_reading_of_types {first : Document} {rest : List Document}
    (htypes : ∀ d ∈ rest, Document.types d = Document.types first) {metric : Nat} {r : Reading}
    (hr : (Document.readings first)[metric]? = some r) :
    ∀ d ∈ first :: rest, ∃ r', (Document.readings d)[metric]? = some r' ∧ r'.type = r.type := by
  intro d hd
  have htype : (Document.types d)[metric]? = some r.type := by
    rw [types_of_mem htypes hd, Document.types, List.getElem?_map, hr]
    rfl
  rw [Document.types, List.getElem?_map, Option.map_eq_some_iff] at htype
  exact htype

/-- A series of the chunk starts with a reading of the reference and takes the steps of its metric. -/
theorem getElem?_series_ofSamples {metadata? : Option Document} {first : Document} {rest : List Document}
    {metric : Nat} {s : Series} (hs : (ofSamples metadata? first rest).series[metric]? = some s) :
    ∃ r, (Document.readings first)[metric]? = some r ∧ s.type = r.type ∧
      s.values = Delta.runningSums r.quantity.toInt64 (Document.steps metric first rest) := by
  simp only [ofSamples, List.getElem?_map, Option.map_eq_some_iff, List.getElem?_zip_eq_some,
    Prod.exists] at hs
  obtain ⟨head, column, ⟨hhead, hcolumn⟩, rfl⟩ := hs
  obtain ⟨m, hm, rfl⟩ := hcolumn
  obtain ⟨hlt, hm⟩ := List.getElem?_eq_some_iff.mp hm
  obtain rfl : metric = m := by simpa using hm
  have hword := congrArg (·[metric]?) (Document.map_schema first)
  simp only [List.getElem?_map, hhead, Option.map_some] at hword
  obtain ⟨r, hr, hr'⟩ := Option.map_eq_some_iff.mp hword.symm
  simp only [Reading.word, SeriesHead.word, Prod.mk.injEq] at hr'
  exact ⟨r, hr, hr'.1.symm, by rw [hr'.2]⟩

/-- The sample with number `i` is the last one of the first `i + 1`. -/
private theorem getLastD_take {α : Type} {first d : α} {rest : List α} {i : Nat}
    (h : (first :: rest)[i]? = some d) : (rest.take i).getLastD first = d := by
  induction rest generalizing first i with
  | nil =>
    cases i with
    | zero => simpa using h
    | succ i => simp at h
  | cons e rest ih =>
    cases i with
    | zero => simpa using h
    | succ i =>
      rw [List.take_succ_cons, List.getLastD_cons]
      exact ih h

private theorem exists_map_eq {α β γ : Type} {f : α → γ} {g : β → γ} {l : List α}
    (h : ∀ a ∈ l, ∃ b, f a = g b) : ∃ l' : List β, l.map f = l'.map g := by
  induction l with
  | nil => exact ⟨[], rfl⟩
  | cons a l ih =>
    obtain ⟨b, hb⟩ := h a List.mem_cons_self
    obtain ⟨l', hl'⟩ := ih fun a ha => h a (List.mem_cons_of_mem _ ha)
    exact ⟨b :: l', by rw [List.map_cons, List.map_cons, hb, hl']⟩

/-- The steps of a metric that is no double lead to the value in each sample. -/
theorem integer_ofSamples {metadata? : Option Document} {first : Document} {rest : List Document}
    (htypes : ∀ d ∈ rest, Document.types d = Document.types first) {metric : Nat} {s : Series}
    (hs : (ofSamples metadata? first rest).series[metric]? = some s) (hinteger : s.type ≠ .double) {i : Nat}
    {d : Document} (hd : (first :: rest)[i]? = some d) :
    ∃ r, (Document.readings d)[metric]? = some r ∧ s.values[i]? = some r.quantity.toInt64 := by
  obtain ⟨r, hr, htype, hvalues⟩ := getElem?_series_ofSamples hs
  have hreadings := exists_reading_of_types htypes hr
  have hintegers : ∀ e ∈ first :: rest.take i, ∃ n, Document.quantity metric e = .integer n := by
    intro e he
    have hmem : e ∈ first :: rest := by
      rcases List.mem_cons.mp he with rfl | he
      · exact List.mem_cons_self
      · exact List.mem_cons_of_mem _ (List.mem_of_mem_take he)
    obtain ⟨r', hr', htype'⟩ := hreadings e hmem
    rw [Document.quantity_eq hr']
    exact Document.exists_integer_of_type (List.mem_of_getElem? hr') (by rw [htype', ← htype]; exact hinteger)
  obtain ⟨r', hr', -⟩ := hreadings d (List.mem_of_getElem? hd)
  have hi : i ≤ (Document.steps metric first rest).length := by
    have hlt := (List.getElem?_eq_some_iff.mp hd).1
    rw [List.length_cons] at hlt
    rw [Document.length_steps]
    omega
  refine ⟨r', hr', ?_⟩
  -- the sums wrap around, and so do the steps, so the sum of the steps is the whole way also when they overflow
  rw [hvalues, Delta.getElem?_runningSums hi, Document.take_steps, ← Document.quantity_eq hr,
    Document.foldl_steps hintegers, getLastD_take hd, Document.quantity_eq hr']

/-- The steps of a double are the bits of its differences. -/
theorem double_ofSamples {metadata? : Option Document} {first : Document} {rest : List Document}
    (htypes : ∀ d ∈ rest, Document.types d = Document.types first) {metric : Nat} {s : Series}
    (hs : (ofSamples metadata? first rest).series[metric]? = some s) (hdouble : s.type = .double) :
    ∃ x xs, (first :: rest).map (fun d => (Document.readings d)[metric]?) =
        (x :: xs).map (fun y => some (Reading.mk .double (.double y))) ∧
      ∀ i ≤ rest.length, s.values[i]? = some (x.toInt64 + (Double.differences x (xs.take i)).sum) := by
  obtain ⟨r, hr, htype, hvalues⟩ := getElem?_series_ofSamples hs
  have hreadings := exists_reading_of_types htypes hr
  have hdoubles : ∀ e ∈ first :: rest, ∃ x,
      (Document.readings e)[metric]? = some (Reading.mk .double (.double x)) := by
    intro e he
    obtain ⟨r', hr', htype'⟩ := hreadings e he
    obtain ⟨x, rfl⟩ := Document.exists_double_of_type (List.mem_of_getElem? hr')
      (by rw [htype', ← htype]; exact hdouble)
    exact ⟨x, hr'⟩
  obtain ⟨x, hx⟩ := hdoubles first List.mem_cons_self
  obtain ⟨xs, hxs⟩ := exists_map_eq fun e he => hdoubles e (List.mem_cons_of_mem _ he)
  refine ⟨x, xs, by rw [List.map_cons, hx, hxs, List.map_cons], ?_⟩
  intro i hi
  have hrest : rest.map (Document.quantity metric) = xs.map Quantity.double := by
    have hmap := congrArg (List.map fun r? => (r?.map Reading.quantity).getD (.integer 0)) hxs
    rw [List.map_map, List.map_map] at hmap
    exact hmap
  obtain rfl : r = ⟨.double, .double x⟩ := Option.some.inj (hr.symm.trans hx)
  rw [hvalues, Delta.getElem?_runningSums (by simpa using hi), foldl_add_eq,
    Document.steps_eq_differences (Document.quantity_eq hx) hrest, Double.take_differences]
  rfl

/-- The chunk with the series of samples represents them. -/
theorem represents_ofSamples {first : Document} {rest : List Document}
    (htypes : ∀ d ∈ rest, Document.types d = Document.types first) (metadata? : Option Document) :
    (ofSamples metadata? first rest).Represents first rest where
  reference_eq := rfl
  length_eq := rfl
  heads_eq := by
    rw [ofSamples, List.map_map]
    show List.map Prod.fst _ = _
    rw [List.map_fst_zip (by simp)]
  size_eq := by
    intro s hs
    obtain ⟨metric, hmetric⟩ := List.mem_iff_getElem?.mp hs
    obtain ⟨r, -, -, hvalues⟩ := getElem?_series_ofSamples hmetric
    rw [hvalues, Delta.size_runningSums, Document.length_steps]
  integer_eq := integer_ofSamples htypes
  double_eq := double_ofSamples htypes

namespace Represents

variable {c : Chunk} {first : Document} {rest : List Document}

theorem length_series (h : c.Represents first rest) :
    c.series.length = (Document.readings first).length := by
  simpa using congrArg List.length h.heads_eq

/-- A series belongs to the reading of the reference with its number. -/
theorem exists_series (h : c.Represents first rest) {metric : Nat} {r : Reading}
    (hr : (Document.readings first)[metric]? = some r) :
    ∃ s, c.series[metric]? = some s ∧ s.type = r.type := by
  have hword := congrArg (·[metric]?) (Document.map_schema first)
  simp only [← h.heads_eq, List.getElem?_map, hr, Option.map_some] at hword
  obtain ⟨head, hhead, hhead'⟩ := Option.map_eq_some_iff.mp hword
  obtain ⟨s, hs, rfl⟩ := Option.map_eq_some_iff.mp hhead
  exact ⟨s, hs, congrArg Prod.fst hhead'⟩

/-- Every sample can be restored: the reference with its metrics replaced by the values of the series. -/
theorem exists_structured_eq (h : c.Represents first rest) {i : Nat} (hi : i ≤ rest.length) :
    ∃ d, c.structured i = .ok d ∧
      Restores Document.outline Document.readings i c.series first d := by
  have hstructured := structured_eq (by rw [h.length_eq]; omega : i < c.length)
    (by rw [h.length_series, h.reference_eq]) (fun s hs => by rw [h.size_eq s hs]; omega)
  rwa [h.reference_eq] at hstructured

/-- A double that is finite and has not changed so far has its value in the series. -/
theorem values_eq_of_double (h : c.Represents first rest) {metric : Nat} {s : Series}
    (hs : c.series[metric]? = some s) (hdouble : s.type = .double) {x : Double}
    (hx : (Document.readings first)[metric]? = some (Reading.mk .double (.double x)))
    (hfinite : x.isFinite = true) {i : Nat} (hi : i ≤ rest.length)
    (hsame : ∀ e ∈ rest.take i, (Document.readings e)[metric]? = some (Reading.mk .double (.double x))) :
    s.values[i]? = some x.toInt64 := by
  obtain ⟨y, ys, hys, hvalues⟩ := h.double_eq hs hdouble
  rw [List.map_cons, List.map_cons, List.cons.injEq, hx] at hys
  obtain ⟨hy, hys⟩ := hys
  obtain rfl : x = y := by simpa using hy
  have hstays : ∀ z ∈ ys.take i, z = x := by
    intro z hz
    have hmem := List.mem_map_of_mem (f := fun y => some (Reading.mk .double (.double y))) hz
    rw [List.map_take, ← hys, ← List.map_take] at hmem
    obtain ⟨e, he, hez⟩ := List.mem_map.mp hmem
    simpa [hsame e he] using hez.symm
  rw [hvalues i hi, Double.sum_differences_of_eq hfinite hstays, Int64.add_zero]

/-- A sample with the outline of the first comes back as it was if its doubles are finite and have not changed. -/
theorem structured_eq_sample (h : c.Represents first rest)
    (htypes : ∀ d ∈ rest, Document.types d = Document.types first) {i : Nat} {d : Document}
    (hd : (first :: rest)[i]? = some d) (houtline : Document.outline d = Document.outline first)
    (hdoubles : ∀ {metric : Nat} {x : Double},
      (Document.readings first)[metric]? = some (Reading.mk .double (.double x)) →
        x.isFinite = true ∧ ∀ e ∈ rest.take i,
          (Document.readings e)[metric]? = some (Reading.mk .double (.double x))) :
    c.structured i = .ok d := by
  have hi : i < (first :: rest).length := (List.getElem?_eq_some_iff.mp hd).1
  rw [List.length_cons] at hi
  obtain ⟨d', hd', houtline', hreadings⟩ := h.exists_structured_eq (by omega : i ≤ rest.length)
  suffices heq : Document.readings d' = Document.readings d by
    rw [hd', Document.eq_of_outline_of_readings (houtline'.trans houtline.symm) heq]
  rw [hreadings]
  apply List.ext_getElem?
  intro metric
  cases hr : (Document.readings first)[metric]? with
  | none =>
    have hlen : (Document.readings d).length = (Document.readings first).length :=
      Document.length_readings_of_types (types_of_mem htypes (List.mem_of_getElem? hd))
    have hnone := List.getElem?_eq_none_iff.mp hr
    rw [List.getElem?_eq_none (by rw [List.length_zipWith]; omega),
      List.getElem?_eq_none (by omega)]
  | some r =>
    obtain ⟨s, hs, htype⟩ := h.exists_series hr
    obtain ⟨r', hr', htype'⟩ := exists_reading_of_types htypes hr d (List.mem_of_getElem? hd)
    have hword := Document.ofWord_readings d r' (List.mem_of_getElem? hr')
    suffices hvalue : s.values[i]? = some r'.quantity.toInt64 by
      have hgetD : s.values.getD i 0 = r'.quantity.toInt64 := by
        rw [Array.getD_eq_getD_getElem?, hvalue]
        rfl
      rw [List.getElem?_zipWith, hr, hs, hr', Option.some.injEq, readingAt, hgetD, ← htype', hword]
    by_cases hdouble : s.type = .double
    · obtain ⟨x, hx⟩ := Document.exists_double_of_type (List.mem_of_getElem? hr) (htype ▸ hdouble)
      rw [hx] at hr
      obtain ⟨hfinite, hsame⟩ := hdoubles hr
      have hlast : r' = ⟨.double, .double x⟩ := by
        have hmem : d ∈ first :: rest.take i := getLastD_take hd ▸ List.getLastD_mem_cons
        rcases List.mem_cons.mp hmem with rfl | hmem
        · exact Option.some.inj (hr'.symm.trans hr)
        · exact Option.some.inj (hr'.symm.trans (hsame d hmem))
      rw [h.values_eq_of_double hs hdouble hr hfinite (by omega) hsame, hlast]
      rfl
    · obtain ⟨r'', hr'', hvalue⟩ := h.integer_eq hs hdouble hd
      obtain rfl : r' = r'' := Option.some.inj (hr'.symm.trans hr'')
      exact hvalue

end Represents

end Chunk

end Telemetry

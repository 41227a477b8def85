import Telemetry.Collector.Window
import Telemetry.Proofs.Delta
import Telemetry.Proofs.Document.Binary

/-!
# What a window holds

A window that has been filled from samples is described by the samples alone (`Window.Holds`): the first is the
reference, and the buffer has in each column the steps of one metric from sample to sample. From this follows
what the window says of itself (`Holds.info_eq`) and the payload that it is turned into (`Carries.payload_eq`).

## Shape of the proof

`add_cases` says once what taking a sample can do; nothing else opens `Window.add`. A sample that is taken
writes one slot of every column, the one after the slots that are in use (`column_recordDeltas`), and the slots
in use are not touched because slots of different samples are different. `Holds.add` follows by cases.
-/

namespace Telemetry

/-! ## Samples as steps -/

namespace Document

/-- The types of the readings of a sample. -/
def types (d : Document) : List MetricType :=
  (Document.readings d).map Reading.type

/-- The quantity of a metric in a sample. -/
def quantity (metric : Nat) (d : Document) : Quantity :=
  ((Document.readings d)[metric]?.map Reading.quantity).getD (.integer 0)

theorem quantity_eq {metric : Nat} {d : Document} {r : Reading}
    (h : (Document.readings d)[metric]? = some r) : quantity metric d = r.quantity := by
  rw [quantity, h]
  rfl

/-- The delta of a metric from one sample to the next. -/
def step (metric : Nat) (previous current : Document) : Int64 :=
  (quantity metric current).delta (quantity metric previous)

/-- The deltas of a metric over the samples after the first. -/
def steps (metric : Nat) (first : Document) : List Document → List Int64
  | [] => []
  | d :: rest => step metric first d :: steps metric d rest

@[simp] theorem length_steps (metric : Nat) (first : Document) (rest : List Document) :
    (steps metric first rest).length = rest.length := by
  induction rest generalizing first with
  | nil => rfl
  | cons d rest ih => rw [steps, List.length_cons, List.length_cons, ih]

/-- One more sample is one more step, from the last one. -/
theorem steps_concat (metric : Nat) (first : Document) (rest : List Document) (d : Document) :
    steps metric first (rest ++ [d]) = steps metric first rest ++ [step metric (rest.getLastD first) d] := by
  induction rest generalizing first with
  | nil => rfl
  | cons e rest ih =>
    rw [List.cons_append, steps, ih, steps, List.cons_append, List.getLastD_cons]

/-- A sample that comes again and again takes no steps, if there is none from the sample to itself. -/
theorem steps_replicate {metric : Nat} {d : Document} (h : step metric d d = 0) (n : Nat) :
    steps metric d (List.replicate n d) = List.replicate n 0 := by
  induction n with
  | zero => rfl
  | succ n ih => rw [List.replicate_succ, steps, h, ih, List.replicate_succ]

/-- The step at a place leads from the sample there to the next one. -/
theorem getElem?_steps {metric i : Nat} {first previous current : Document} {rest : List Document}
    (hprevious : (first :: rest)[i]? = some previous) (hcurrent : rest[i]? = some current) :
    (steps metric first rest)[i]? = some (step metric previous current) := by
  induction rest generalizing first i with
  | nil => simp at hcurrent
  | cons d rest ih =>
    cases i with
    | zero =>
      obtain rfl : first = previous := by simpa using hprevious
      obtain rfl : d = current := by simpa using hcurrent
      rfl
    | succ i => exact ih (by simpa using hprevious) (by simpa using hcurrent)

theorem length_readings_of_types {d e : Document} (h : types d = types e) :
    (Document.readings d).length = (Document.readings e).length := by
  simpa [types] using congrArg List.length h

end Document

namespace Window

/-! ## Schemas -/

/-- Lists of readings of one length differ in no type exactly if they have the same types. -/
theorem typeChange?_eq_none_iff {index : Nat} {current previous : List Reading}
    (h : current.length = previous.length) :
    typeChange? index current previous = none ↔
      current.map Reading.type = previous.map Reading.type := by
  induction current generalizing previous index with
  | nil =>
    obtain rfl := List.length_eq_zero_iff.mp h.symm
    simp [typeChange?]
  | cons a current ih =>
    cases previous with
    | nil => simp at h
    | cons b previous =>
      have hlen : current.length = previous.length := by simpa using h
      rw [typeChange?]
      split
      next htype => simp [ih hlen, htype]
      next htype => simp [htype]

/-- A sample fits a window exactly if its readings have the types of those before. -/
theorem schemaError?_eq_none_iff {w : Window} {current : List Reading} :
    w.schemaError? current = none ↔ current.map Reading.type = w.last.map Reading.type := by
  rw [schemaError?]
  by_cases hlen : current.length = w.last.length
  · simp [hlen, typeChange?_eq_none_iff hlen]
  · have hne : current.map Reading.type ≠ w.last.map Reading.type := fun heq =>
      hlen (by simpa using congrArg List.length heq)
    simp [hlen, hne]

/-! ## Slots -/

/-- Put the delta of a metric into its slot for the next sample. -/
private def put (w : Window) (buffer : Delta.Buffer) (entry : (Reading × Reading) × Nat) : Delta.Buffer :=
  buffer.set (Delta.offset w.maxDeltas w.count entry.2)
    (entry.1.1.quantity.delta entry.1.2.quantity)

private theorem recordDeltas_eq (w : Window) (current : List Reading) :
    w.recordDeltas current = ((current.zip w.last).zipIdx).foldl w.put w.deltas := rfl

theorem size_recordDeltas (w : Window) (current : List Reading) :
    (w.recordDeltas current).size = w.deltas.size := by
  rw [recordDeltas_eq]
  generalize (current.zip w.last).zipIdx = entries
  generalize w.deltas = buffer
  induction entries generalizing buffer with
  | nil => rfl
  | cons entry entries ih => rw [List.foldl_cons, ih, put, Delta.Buffer.size_set]

/-- Slots of other samples, and those of metrics that are not among the entries, are left alone. -/
private theorem get_foldl_put_of_ne {w : Window} (hcount : w.count < w.maxDeltas) {sample metric : Nat}
    (hsample : sample < w.maxDeltas) (entries : List ((Reading × Reading) × Nat)) (buffer : Delta.Buffer)
    (h : ∀ entry ∈ entries, sample = w.count → entry.2 ≠ metric) :
    (entries.foldl w.put buffer).get (Delta.offset w.maxDeltas sample metric) =
      buffer.get (Delta.offset w.maxDeltas sample metric) := by
  induction entries generalizing buffer with
  | nil => rfl
  | cons entry entries ih =>
    have hslot : Delta.offset w.maxDeltas w.count entry.2 ≠ Delta.offset w.maxDeltas sample metric := by
      rw [Ne, Delta.offset_inj hcount hsample]
      rintro ⟨hs, hm⟩
      exact h entry (by simp) hs.symm hm
    rw [List.foldl_cons, ih _ fun e he => h e (by simp [he]), put, Delta.Buffer.get_set_of_ne hslot]

/-- The slots of the next sample hold the deltas, one for each pair of readings. -/
private theorem get_foldl_put {w : Window} (hcount : w.count < w.maxDeltas)
    (pairs : List (Reading × Reading)) (start : Nat) (buffer : Delta.Buffer)
    (hsize : w.maxDeltas * (start + pairs.length) ≤ buffer.size) {m : Nat} (hm : m < pairs.length) :
    ((pairs.zipIdx start).foldl w.put buffer).get (Delta.offset w.maxDeltas w.count (start + m)) =
      (pairs[m].1.quantity.delta pairs[m].2.quantity) := by
  induction pairs generalizing start buffer m with
  | nil => simp at hm
  | cons pair pairs ih =>
    rw [List.length_cons] at hsize
    rw [List.zipIdx_cons, List.foldl_cons]
    cases m with
    | zero =>
      -- the entries after the first are for metrics after it
      have hlater : ∀ entry ∈ pairs.zipIdx (start + 1), w.count = w.count → entry.2 ≠ start := by
        intro entry hentry _
        have := (List.mem_zipIdx (x := entry.1) (i := entry.2) hentry).1
        omega
      have hslot : Delta.offset w.maxDeltas w.count start < buffer.size := by
        have := Delta.offset_lt hcount (by omega : start < start + (pairs.length + 1))
        omega
      show (_ : Delta.Buffer).get (Delta.offset w.maxDeltas w.count start) = _
      rw [get_foldl_put_of_ne hcount hcount _ _ hlater]
      exact (Delta.Buffer.get_set hslot _ _).trans (if_pos rfl)
    | succ m =>
      have hsize' : w.maxDeltas * (start + 1 + pairs.length) ≤ (w.put buffer (pair, start)).size := by
        rw [put, Delta.Buffer.size_set, show start + 1 + pairs.length = start + (pairs.length + 1) by omega]
        exact hsize
      have hmore := ih (start + 1) _ hsize' (by simpa using hm : m < pairs.length)
      rw [show start + 1 + m = start + (m + 1) by omega] at hmore
      simpa using hmore

/-- A sample adds to each column the delta of its metric. -/
theorem column_recordDeltas {w : Window} {current : List Reading} (hcount : w.count < w.maxDeltas)
    (hsize : w.deltas.size = w.maxDeltas * current.length) (hlen : w.last.length = current.length)
    {metric : Nat} (hm : metric < current.length) (hm' : metric < w.last.length) :
    Delta.column (w.recordDeltas current).get w.maxDeltas (w.count + 1) metric =
      Delta.column w.deltas.get w.maxDeltas w.count metric ++
        [current[metric].quantity.delta w.last[metric].quantity] := by
  have hzip : (current.zip w.last).length = current.length := by simp [hlen]
  have hnew := get_foldl_put hcount (current.zip w.last) 0 w.deltas (by simp [hzip, hsize])
    (by omega : metric < (current.zip w.last).length)
  rw [Nat.zero_add, ← recordDeltas_eq, List.getElem_zip] at hnew
  rw [Delta.column, List.range_succ, List.map_append, List.map_singleton, hnew, Delta.column]
  -- what is left are the slots of the samples before, which keep their deltas
  congr 1
  apply List.map_congr_left
  intro sample hsample
  have hsample : sample < w.count := List.mem_range.mp hsample
  rw [recordDeltas_eq]
  exact get_foldl_put_of_ne hcount (by omega) _ _ fun _ _ heq => absurd heq (by omega)

/-! ## Taking a sample -/

/-- What taking a sample can do: the first one becomes the reference, another is added to the columns if
there is room and it fits, and otherwise nothing happens. -/
theorem add_cases (sample : Document) (w : Window) :
    (w.reference? = none ∧ w.add sample = (.ok (), { w with
      reference? := some sample
      last := Document.readings sample
      deltas := .zeros (w.maxDeltas * (Document.readings sample).length) })) ∨
    (w.reference?.isSome ∧ w.count < w.maxDeltas ∧
      (Document.readings sample).map Reading.type = w.last.map Reading.type ∧
      w.add sample = (.ok (), { w with
        deltas := w.recordDeltas (Document.readings sample)
        last := Document.readings sample
        count := w.count + 1 })) ∨
    (w.reference?.isSome ∧ ∃ e, w.add sample = (.error e, w)) := by
  cases href : w.reference? with
  | none => exact .inl ⟨rfl, by simp only [add, href]⟩
  | some reference =>
    refine .inr ?_
    by_cases hfull : w.maxDeltas ≤ w.count
    · exact .inr ⟨rfl, .overfull w.maxDeltas, by simp only [add, href]; rw [if_pos hfull]⟩
    · cases hschema : w.schemaError? (Document.readings sample) with
      | none =>
        refine .inl ⟨rfl, by omega, schemaError?_eq_none_iff.mp hschema, ?_⟩
        simp only [add, href, hschema]
        rw [if_neg hfull]
      | some e =>
        refine .inr ⟨rfl, e, ?_⟩
        simp only [add, href, hschema]
        rw [if_neg hfull]

/-- A refused sample leaves the window as it was. -/
theorem eq_of_add_error {w w' : Window} {sample : Document} {e : Error}
    (h : w.add sample = (.error e, w')) : w' = w := by
  rcases add_cases sample w with ⟨-, hadd⟩ | ⟨-, -, -, hadd⟩ | ⟨-, e', hadd⟩
  · simp [hadd] at h
  · simp [hadd] at h
  · rw [hadd] at h
    exact (Prod.mk.inj h).2.symm

/-- A window that tells of no samples takes any sample. -/
theorem exists_add_of_samples_eq_zero {w : Window} (h : w.info.samples = 0) (sample : Document) :
    ∃ w', w.add sample = (.ok (), w') := by
  have hnone : ¬ w.reference?.isSome := by
    intro hsome
    rw [info, if_pos hsome] at h
    exact absurd h (Nat.succ_ne_zero w.count)
  rcases add_cases sample w with ⟨-, hadd⟩ | ⟨hsome, -⟩ | ⟨hsome, -⟩
  · exact ⟨_, hadd⟩
  · exact absurd hsome hnone
  · exact absurd hsome hnone

/-- Only the samples of a window change when it takes one. -/
theorem frame_add (sample : Document) (w : Window) :
    (w.add sample).2.maxDeltas = w.maxDeltas ∧ (w.add sample).2.compression = w.compression ∧
      (w.add sample).2.metadata? = w.metadata? := by
  rcases add_cases sample w with ⟨-, hadd⟩ | ⟨-, -, -, hadd⟩ | ⟨-, e, hadd⟩ <;>
    simp [hadd]

/-! ## The samples of a window -/

/-- A window with a reference: what it holds, in terms of the samples it was filled from.

The first sample is the reference, every other one is counted, there are no more than there is room for, and all have
readings of the same types. The next step is taken from the readings of the last sample. There is a column for every
metric, and it holds the steps of the metric. -/
structure Carries (w : Window) (first : Document) (rest : List Document) : Prop where
  reference_eq : w.reference? = some first
  last_eq : w.last = Document.readings (rest.getLastD first)
  count_eq : w.count = rest.length
  length_le : rest.length ≤ w.maxDeltas
  types_eq : ∀ d ∈ rest, Document.types d = Document.types first
  size_eq : w.deltas.size = w.maxDeltas * (Document.readings first).length
  column_eq : ∀ metric < (Document.readings first).length,
    Delta.column w.deltas.get w.maxDeltas rest.length metric = Document.steps metric first rest

/-- A window holds exactly the given samples, in order. -/
def Holds (w : Window) : List Document → Prop
  | [] => w.reference? = none ∧ w.count = 0
  | first :: rest => w.Carries first rest

namespace Carries

variable {w w' : Window} {first : Document} {rest : List Document}

/-- The last sample has as many readings as the first. -/
theorem length_last (h : w.Carries first rest) : w.last.length = (Document.readings first).length := by
  rw [h.last_eq]
  rcases List.eq_nil_or_concat rest with rfl | ⟨front, d, rfl⟩
  · rfl
  · rw [List.concat_eq_append, List.getLastD_concat]
    exact Document.length_readings_of_types (h.types_eq d (by simp))

theorem types_last (h : w.Carries first rest) : w.last.map Reading.type = Document.types first := by
  rw [h.last_eq]
  rcases List.eq_nil_or_concat rest with rfl | ⟨front, d, rfl⟩
  · rfl
  · rw [List.concat_eq_append, List.getLastD_concat]
    exact h.types_eq d (by simp)

/-- A window with its first sample. -/
theorem first_taken (hcount : w.count = 0) (sample : Document) :
    Carries { w with
      reference? := some sample
      last := Document.readings sample
      deltas := .zeros (w.maxDeltas * (Document.readings sample).length) } sample [] where
  reference_eq := rfl
  last_eq := rfl
  count_eq := hcount
  length_le := Nat.zero_le _
  types_eq := by simp
  size_eq := rfl
  column_eq _ _ := rfl

/-- A window with one more sample. -/
theorem next_taken (h : w.Carries first rest) (hroom : w.count < w.maxDeltas) {sample : Document}
    (htypes : Document.types sample = Document.types first) :
    Carries { w with
      deltas := w.recordDeltas (Document.readings sample)
      last := Document.readings sample
      count := w.count + 1 } first (rest ++ [sample]) where
  reference_eq := h.reference_eq
  last_eq := by rw [List.getLastD_concat]
  count_eq := by rw [List.length_append, List.length_singleton, ← h.count_eq]
  length_le := by
    rw [List.length_append, List.length_singleton, ← h.count_eq]
    exact hroom
  types_eq := by
    intro d hd
    rcases List.mem_append.mp hd with hd | hd
    · exact h.types_eq d hd
    · obtain rfl := List.mem_singleton.mp hd
      exact htypes
  size_eq := by rw [size_recordDeltas, h.size_eq]
  column_eq := by
    intro metric hmetric
    have hlen := Document.length_readings_of_types htypes
    have hm : metric < (Document.readings sample).length := by omega
    have hm' : metric < w.last.length := by rw [h.length_last]; exact hmetric
    have hnew := column_recordDeltas hroom (by rw [hlen]; exact h.size_eq)
      (by rw [h.length_last, hlen]) hm hm'
    have hcurrent : Document.quantity metric sample = (Document.readings sample)[metric].quantity :=
      Document.quantity_eq (List.getElem?_eq_getElem hm)
    have hprevious : Document.quantity metric (rest.getLastD first) = w.last[metric].quantity :=
      Document.quantity_eq (h.last_eq ▸ List.getElem?_eq_getElem hm')
    rw [h.count_eq, h.column_eq metric hmetric, ← hcurrent, ← hprevious] at hnew
    rw [List.length_append, List.length_singleton, hnew, Document.steps_concat, Document.step]

end Carries

namespace Holds

variable {w w' : Window} {samples : List Document}

theorem empty (maxDeltas : Nat) (z : Compression) : Holds (.empty maxDeltas z) [] :=
  ⟨rfl, rfl⟩

theorem reset (w : Window) : Holds w.reset [] :=
  ⟨rfl, rfl⟩

/-- A metadata document is no sample. -/
theorem setMetadata (h : w.Holds samples) (d : Document) : (w.setMetadata d).Holds samples := by
  cases samples with
  | nil => exact h
  | cons first rest =>
    exact ⟨h.reference_eq, h.last_eq, h.count_eq, h.length_le, h.types_eq, h.size_eq, h.column_eq⟩

/-- A sample that is taken is the last one held. -/
theorem add (h : w.Holds samples) {sample : Document} (hadd : w.add sample = (.ok (), w')) :
    w'.Holds (samples ++ [sample]) := by
  cases samples with
  | nil =>
    obtain ⟨href, hcount⟩ := h
    rcases add_cases sample w with ⟨-, heq⟩ | ⟨hsome, -⟩ | ⟨-, e, heq⟩
    · rw [heq] at hadd
      obtain ⟨-, rfl⟩ := Prod.mk.inj hadd
      exact Carries.first_taken hcount sample
    · simp [href] at hsome
    · simp [heq] at hadd
  | cons first rest =>
    have hcarries : w.Carries first rest := h
    rcases add_cases sample w with ⟨hnone, -⟩ | ⟨-, hroom, htypes, heq⟩ | ⟨-, e, heq⟩
    · simp [hcarries.reference_eq] at hnone
    · rw [heq] at hadd
      obtain ⟨-, rfl⟩ := Prod.mk.inj hadd
      exact hcarries.next_taken hroom (htypes.trans hcarries.types_last)
    · simp [heq] at hadd

/-- The window tells how many samples it holds and how many metrics they have. -/
theorem info_eq (h : w.Holds samples) :
    w.info = ⟨samples.length, (samples.head?.map fun d => (Document.readings d).length).getD 0⟩ := by
  cases samples with
  | nil => rw [info, h.1]; rfl
  | cons first rest =>
    have hcarries : w.Carries first rest := h
    rw [info, hcarries.reference_eq, hcarries.count_eq, hcarries.length_last]
    rfl

theorem samples_info (h : w.Holds samples) : w.info.samples = samples.length := by
  rw [h.info_eq]

/-- A window without samples takes any sample. -/
theorem exists_add_eq_ok (h : w.Holds []) (sample : Document) : ∃ w', w.add sample = (.ok (), w') :=
  exists_add_of_samples_eq_zero h.samples_info sample

/-- A window with room for a sample takes one with metrics of the types of those it holds. -/
theorem exists_add_of_types (h : w.Holds samples) (hroom : samples.length ≤ w.maxDeltas) {sample : Document}
    (htypes : ∀ d ∈ samples, Document.types sample = Document.types d) : ∃ w', w.add sample = (.ok (), w') := by
  cases samples with
  | nil => exact h.exists_add_eq_ok sample
  | cons first rest =>
    have hcarries : w.Carries first rest := h
    have hfits : w.schemaError? (Document.readings sample) = none :=
      schemaError?_eq_none_iff.mpr ((htypes first List.mem_cons_self).trans hcarries.types_last.symm)
    rw [Window.add, hcarries.reference_eq]
    simp only [hfits]
    rw [if_neg (by rw [hcarries.count_eq]; exact Nat.not_le.mpr hroom)]
    exact ⟨_, rfl⟩

/-- All samples in a window have readings of the same types. -/
theorem types_eq (h : w.Holds samples) : ∀ d ∈ samples, ∀ e ∈ samples, Document.types d = Document.types e := by
  cases samples with
  | nil => simp
  | cons first rest =>
    have hfirst : ∀ d ∈ first :: rest, Document.types d = Document.types first := by
      intro d hd
      rcases List.mem_cons.mp hd with rfl | hd
      · rfl
      · exact h.types_eq d hd
    intro d hd e he
    rw [hfirst d hd, hfirst e he]

/-- A window holds no more samples than it has room for. -/
theorem length_le (h : w.Holds samples) : samples.length ≤ w.maxDeltas + 1 := by
  cases samples with
  | nil => exact Nat.zero_le _
  | cons first rest => exact Nat.succ_le_succ h.length_le

end Holds

/-! ## The payload -/

/-- The payload of a chunk with the given samples: the first as a document, the number of metrics, the number
of samples after the first, and the steps metric by metric. -/
def chunkPayload (first : Document) (rest : List Document) : Bytes :=
  Document.bytes first ++ Bytes.ofNat 4 (Document.readings first).length ++
    Bytes.ofNat 4 rest.length ++
    ((List.range (Document.readings first).length).map fun metric =>
      Document.steps metric first rest).flatMap Delta.encodeColumn

/-- The payload of a window is told by the samples it holds. -/
theorem Carries.payload_eq {w : Window} {first : Document} {rest : List Document}
    (h : w.Carries first rest) (hsize : Document.size first < UInt32.size) :
    w.payload = .ok (chunkPayload first rest) := by
  have hcolumns : Delta.encode w.deltas.get w.maxDeltas w.last.length w.count =
      ((List.range (Document.readings first).length).map fun metric =>
        Document.steps metric first rest).flatMap Delta.encodeColumn := by
    rw [Delta.encode, h.length_last, h.count_eq, List.flatMap_map, List.flatMap_def, List.flatMap_def]
    congr 1
    apply List.map_congr_left
    intro metric hmetric
    rw [h.column_eq metric (List.mem_range.mp hmetric)]
  rw [payload, h.reference_eq]
  simp only [Document.encode_eq hsize]
  rw [hcolumns, h.length_last, h.count_eq, chunkPayload]

/-- A window that has a payload has a reference that can be written. -/
theorem Carries.size_lt_of_payload {w : Window} {first : Document} {rest : List Document}
    (h : w.Carries first rest) {payload : Bytes} (hpayload : w.payload = .ok payload) :
    Document.size first < UInt32.size := by
  rw [Window.payload, h.reference_eq] at hpayload
  dsimp only at hpayload
  split at hpayload
  next => simp at hpayload
  next bytes hencode => exact Document.size_lt_of_encode hencode

end Window

end Telemetry

import Telemetry.Proofs.Chunk.RoundTrip
import Telemetry.Proofs.Collector.RoundTrip
import Telemetry.Zlib.Stored

/-!
# The slots that samples fill

The buffer of a window is filled sample by sample and read column by column, and the columns are as long as the window
may become, not as long as it is. What has been put into a buffer can be told from the samples alone: the log of a window
(`Window.log`) has an entry for each metric of each sample after the first, a slot and the delta that goes there.

Whatever was asked of a window, its buffer is an empty one of the right size into which exactly this log was written
(`Window.Logged`, kept by every request: `Window.tracks_logged`). As the slots of a log all lie inside the buffer and are
all different (`Window.nodup_log`), no delta is lost and none is put in the place of another (`Window.buffer_laid_out`).

## Shape of the proof

Only a sample that is taken after the first changes a buffer, and it writes one part of the log
(`recordDeltas_eq_write`); a first sample begins an empty log in a new buffer. Everything else that can be asked leaves
buffer and samples alone or drops both.
-/

namespace Telemetry

open Collector

namespace Window

/-! ## Logs -/

/-- What a sample puts into the buffer: in the slot it has in each column, the delta of the metric from the sample
before. -/
def logOf (stride metrics sample : Nat) (previous current : Document) : List (Nat × Int64) :=
  (List.range metrics).map fun metric =>
    (Delta.offset stride sample metric, Document.step metric previous current)

/-- What samples put into the buffer one after the other, if `sample` of them did so before. -/
def log (stride metrics sample : Nat) (previous : Document) : List Document → List (Nat × Int64)
  | [] => []
  | d :: rest => logOf stride metrics sample previous d ++ log stride metrics (sample + 1) d rest

/-- One more sample adds its entries to the log. -/
theorem log_concat (stride metrics sample : Nat) (previous : Document) (rest : List Document) (d : Document) :
    log stride metrics sample previous (rest ++ [d]) =
      log stride metrics sample previous rest ++
        logOf stride metrics (sample + rest.length) (rest.getLastD previous) d := by
  induction rest generalizing previous sample with
  | nil => simp [log]
  | cons e rest ih =>
    rw [List.cons_append, log, ih, log, List.append_assoc, List.getLastD_cons, List.length_cons, Nat.add_right_comm,
      Nat.add_assoc]

/-- The slots of a log, sample by sample. -/
theorem map_fst_log (stride metrics sample : Nat) (previous : Document) (rest : List Document) :
    (log stride metrics sample previous rest).map Prod.fst =
      (List.range' sample rest.length).flatMap fun j => (List.range metrics).map (Delta.offset stride j) := by
  induction rest generalizing previous sample with
  | nil => rfl
  | cons d rest ih =>
    have hfirst : (logOf stride metrics sample previous d).map Prod.fst =
        (List.range metrics).map (Delta.offset stride sample) := by
      rw [logOf, List.map_map]
      rfl
    rw [log, List.map_append, hfirst, ih, List.length_cons, List.range'_succ, List.flatMap_cons]

/-- No two entries of a log have the same slot. -/
theorem nodup_log {stride : Nat} (metrics : Nat) (first : Document) {rest : List Document}
    (hroom : rest.length ≤ stride) : ((log stride metrics 0 first rest).map Prod.fst).Nodup := by
  rw [map_fst_log, ← List.range_eq_range']
  exact Delta.nodup_slots hroom metrics

/-- The slots of a log lie inside a buffer with columns for all metrics. -/
theorem lt_of_mem_log {stride metrics : Nat} {first : Document} {rest : List Document} (hroom : rest.length ≤ stride)
    {entry : Nat × Int64} (hentry : entry ∈ log stride metrics 0 first rest) : entry.1 < stride * metrics := by
  have hslot : entry.1 ∈ (log stride metrics 0 first rest).map Prod.fst := List.mem_map_of_mem hentry
  rw [map_fst_log, ← List.range_eq_range'] at hslot
  obtain ⟨sample, hsample, hslot⟩ := List.mem_flatMap.mp hslot
  obtain ⟨metric, hmetric, heq⟩ := List.mem_map.mp hslot
  rw [← heq]
  exact Delta.offset_lt (Nat.lt_of_lt_of_le (List.mem_range.mp hsample) hroom) (List.mem_range.mp hmetric)

/-! ## Buffers and their logs -/

/-- A sample that is added to the columns writes its part of the log. -/
theorem recordDeltas_eq_write {w : Window} {previous current : Document} (hlast : w.last = Document.readings previous)
    (hlength : (Document.readings current).length = (Document.readings previous).length) :
    w.recordDeltas (Document.readings current) =
      w.deltas.write (logOf w.maxDeltas (Document.readings current).length w.count previous current) := by
  have hentries : ((Document.readings current).zip w.last).zipIdx.map (fun entry =>
      (Delta.offset w.maxDeltas w.count entry.2, entry.1.1.quantity.delta entry.1.2.quantity)) =
        logOf w.maxDeltas (Document.readings current).length w.count previous current := by
    rw [hlast]
    refine List.ext_getElem (by simp [logOf, hlength]) fun metric h h' => ?_
    have hcurrent : metric < (Document.readings current).length := by simpa [logOf] using h'
    have hprevious : metric < (Document.readings previous).length := hlength ▸ hcurrent
    have hstep : Document.step metric previous current =
        (Document.readings current)[metric].quantity.delta (Document.readings previous)[metric].quantity := by
      rw [Document.step, Document.quantity_eq (List.getElem?_eq_getElem hcurrent),
        Document.quantity_eq (List.getElem?_eq_getElem hprevious)]
    simp [logOf, hstep]
  rw [← hentries, Delta.Buffer.write, List.foldl_map]
  rfl

/-- The deltas of one more sample are the part of the log that follows. -/
theorem Carries.recordDeltas_eq {w : Window} {first : Document} {rest : List Document} (h : w.Carries first rest)
    {sample : Document} (htypes : Document.types sample = Document.types first) :
    w.recordDeltas (Document.readings sample) = w.deltas.write
      (logOf w.maxDeltas (Document.readings first).length rest.length (rest.getLastD first) sample) := by
  have hlength := Document.length_readings_of_types htypes
  have hlast : (Document.readings sample).length = (Document.readings (rest.getLastD first)).length := by
    rw [hlength, ← h.length_last, h.last_eq]
  rw [recordDeltas_eq_write h.last_eq hlast, hlength, h.count_eq]

/-- The buffer of a window with samples is an empty one into which their log was written. -/
def Logged (w : Window) : List Document → Prop
  | [] => True
  | first :: rest =>
    w.deltas = (Delta.Buffer.zeros (w.maxDeltas * (Document.readings first).length)).write
      (log w.maxDeltas (Document.readings first).length 0 first rest)

/-- A metadata document is not logged. -/
theorem Logged.setMetadata {w : Window} {samples : List Document} (h : w.Logged samples) (d : Document) :
    (w.setMetadata d).Logged samples := by
  cases samples with
  | nil => trivial
  | cons first rest => exact h

/-- A sample that is taken is logged. -/
theorem Logged.add {w w' : Window} {samples : List Document} (h : w.Logged samples) (hholds : w.Holds samples)
    {sample : Document} (hadd : w.add sample = (.ok (), w')) : w'.Logged (samples ++ [sample]) := by
  rcases add_cases sample w with ⟨hnone, heq⟩ | ⟨hsome, -, htypes, heq⟩ | ⟨-, e, heq⟩
  · rw [heq] at hadd
    obtain ⟨-, rfl⟩ := Prod.mk.inj hadd
    cases samples with
    | nil => rfl
    | cons first rest => simp [(show w.Carries first rest from hholds).reference_eq] at hnone
  · rw [heq] at hadd
    obtain ⟨-, rfl⟩ := Prod.mk.inj hadd
    cases samples with
    | nil => simp [hholds.1] at hsome
    | cons first rest =>
      have hcarries : w.Carries first rest := hholds
      show w.recordDeltas (Document.readings sample) = Delta.Buffer.write _ (log _ _ 0 first (rest ++ [sample]))
      rw [hcarries.recordDeltas_eq (htypes.trans hcarries.types_last), log_concat, Nat.zero_add, Delta.Buffer.write_append]
      exact congrArg (Delta.Buffer.write · _) h
  · simp [heq] at hadd

/-- Whatever is asked of a window, its buffer is told by the samples in its ledger. -/
theorem tracks_logged (maxDeltas : Nat) :
    Tracks fun (w : Window) l => w.maxDeltas = maxDeltas ∧ w.Holds l.accepted ∧ w.Logged l.accepted where
  added := by
    rintro w w' l sample ⟨hmax, hholds, hlogged⟩ hadd
    refine ⟨?_, hholds.add hadd, hlogged.add hholds hadd⟩
    have hframe := (frame_add sample w).1
    rw [show w.add sample = (.ok (), w') from hadd] at hframe
    exact hframe.trans hmax
  refused := by
    intro w w' l sample e h hadd
    rw [eq_of_add_error hadd]
    exact h
  metadataSet := by
    rintro w l d ⟨hmax, hholds, hlogged⟩
    exact ⟨hmax, hholds.setMetadata d, hlogged.setMetadata d⟩
  resolved := id
  begun := by
    rintro w l ⟨hmax, -⟩
    exact ⟨hmax, Holds.reset w, trivial⟩

/-! ## The deltas of a window -/

namespace Carries

variable {w : Window} {first : Document} {rest : List Document}

/-- A slot in use holds the delta of its metric between the two samples it belongs to. -/
theorem get_offset (h : w.Carries first rest) {metric sample : Nat} {previous current : Document}
    (hmetric : metric < (Document.readings first).length) (hprevious : (first :: rest)[sample]? = some previous)
    (hcurrent : rest[sample]? = some current) :
    ∃ a b, (Document.readings previous)[metric]? = some a ∧ (Document.readings current)[metric]? = some b ∧
      w.deltas.get (Delta.offset w.maxDeltas sample metric) = b.quantity.delta a.quantity := by
  have hsample : sample < rest.length := (List.getElem?_eq_some_iff.mp hcurrent).1
  have hreadings := Chunk.exists_reading_of_types h.types_eq (List.getElem?_eq_getElem hmetric)
  obtain ⟨a, ha, -⟩ := hreadings previous (List.mem_of_getElem? hprevious)
  obtain ⟨b, hb, -⟩ := hreadings current (List.mem_cons_of_mem first (List.mem_of_getElem? hcurrent))
  have hslot : (Delta.column w.deltas.get w.maxDeltas rest.length metric)[sample]? =
      some (w.deltas.get (Delta.offset w.maxDeltas sample metric)) := by
    rw [Delta.column, List.getElem?_map, List.getElem?_range hsample]
    rfl
  rw [h.column_eq metric hmetric, Document.getElem?_steps hprevious hcurrent] at hslot
  refine ⟨a, b, ha, hb, (Option.some.inj hslot).symm.trans ?_⟩
  rw [Document.step, Document.quantity_eq hb, Document.quantity_eq ha]

theorem count_le (h : w.Carries first rest) : w.count ≤ w.maxDeltas :=
  h.count_eq ▸ h.length_le

theorem size_eq_last (h : w.Carries first rest) : w.deltas.size = w.maxDeltas * w.last.length := by
  rw [h.size_eq, h.length_last]

/-- The slots in use lie inside the buffer. -/
theorem offset_lt (h : w.Carries first rest) {metric sample : Nat} (hmetric : metric < w.last.length)
    (hsample : sample < w.count) : Delta.offset w.maxDeltas sample metric < w.deltas.size := by
  rw [h.size_eq_last]
  exact Delta.offset_lt (Nat.lt_of_lt_of_le hsample h.count_le) hmetric

/-- The stream of a window is written from the slots inside its buffer. -/
theorem encode_eq (h : w.Carries first rest) {slots : Nat → Int64}
    (hslots : ∀ slot < w.deltas.size, slots slot = w.deltas.get slot) :
    Delta.encode slots w.maxDeltas w.last.length w.count =
      Delta.encode w.deltas.get w.maxDeltas w.last.length w.count :=
  Delta.encode_congr h.count_le fun slot hslot => hslots slot (h.size_eq_last ▸ hslot)

end Carries

/-- How the deltas of a window lie that was made for so many and holds samples.

There is room for the deltas of all samples after the first, and a column as long as that room for every metric. In the
slot of a metric and a sample stands the delta of the metric from that sample to the next. All of it was put there by
the log of the samples: every entry lies inside the buffer, and no two have the same slot.

The stream is written from slots inside the buffer alone, so that what would stand past them makes no difference; it is
asked for no more samples than a column has slots for, and for no more columns than there are. If the size of the buffer
can be counted in words of 64 bits, every slot is the same when it is counted in them. -/
structure LaidOut (maxDeltas : Nat) (first : Document) (rest : List Document) (w : Window) : Prop where
  maxDeltas_eq : w.maxDeltas = maxDeltas
  count_eq : w.count = rest.length
  length_le : rest.length ≤ w.maxDeltas
  length_last : w.last.length = (Document.readings first).length
  size_eq : w.deltas.size = w.maxDeltas * (Document.readings first).length
  get_offset : ∀ metric < (Document.readings first).length, ∀ (sample : Nat) (previous current : Document),
    (first :: rest)[sample]? = some previous → rest[sample]? = some current →
    ∃ a b, (Document.readings previous)[metric]? = some a ∧ (Document.readings current)[metric]? = some b ∧
      w.deltas.get (Delta.offset w.maxDeltas sample metric) = b.quantity.delta a.quantity
  deltas_eq : w.deltas = (Delta.Buffer.zeros (w.maxDeltas * (Document.readings first).length)).write
    (log w.maxDeltas (Document.readings first).length 0 first rest)
  log_inside : ∀ entry ∈ log w.maxDeltas (Document.readings first).length 0 first rest, entry.1 < w.deltas.size
  log_apart : ((log w.maxDeltas (Document.readings first).length 0 first rest).map Prod.fst).Nodup
  offset_lt : ∀ metric < w.last.length, ∀ sample < w.count, Delta.offset w.maxDeltas sample metric < w.deltas.size
  encode_eq : ∀ slots : Nat → Int64, (∀ slot < w.deltas.size, slots slot = w.deltas.get slot) →
    Delta.encode slots w.maxDeltas w.last.length w.count = Delta.encode w.deltas.get w.maxDeltas w.last.length w.count
  count_le : w.count ≤ w.maxDeltas
  columns_le : w.last.length * w.maxDeltas ≤ w.deltas.size
  size_in_words : w.maxDeltas * (Document.readings first).length < UInt64.size →
    (UInt64.ofNat w.maxDeltas * UInt64.ofNat (Document.readings first).length).toNat = w.deltas.size
  offset_in_words : w.maxDeltas * (Document.readings first).length < UInt64.size →
    ∀ metric < (Document.readings first).length, ∀ sample < w.maxDeltas,
      (UInt64.ofNat metric * UInt64.ofNat w.maxDeltas + UInt64.ofNat sample).toNat =
        Delta.offset w.maxDeltas sample metric

/-- The buffer of a window that holds samples is laid out by them, whatever was asked of the window before. -/
theorem buffer_laid_out (maxDeltas : Nat) (z : Compression) (requests : List Request) (first : Document)
    (rest : List Document) (haccepted : (run (empty maxDeltas z) .empty requests).2.accepted = first :: rest) :
    (run (empty maxDeltas z) .empty requests).1.LaidOut maxDeltas first rest := by
  obtain ⟨hmax, hholds, hlogged⟩ := (tracks_logged maxDeltas).run (c := empty maxDeltas z) (l := Ledger.empty)
    ⟨rfl, Holds.empty maxDeltas z, trivial⟩ requests
  rw [haccepted] at hholds hlogged
  have hcarries : (run (empty maxDeltas z) .empty requests).1.Carries first rest := hholds
  exact {
    maxDeltas_eq := hmax
    count_eq := hcarries.count_eq
    length_le := hcarries.length_le
    length_last := hcarries.length_last
    size_eq := hcarries.size_eq
    get_offset := fun _ hmetric _ _ _ => hcarries.get_offset hmetric
    deltas_eq := hlogged
    log_inside := fun _ hentry => hcarries.size_eq ▸ lt_of_mem_log hcarries.length_le hentry
    log_apart := nodup_log _ first hcarries.length_le
    offset_lt := fun _ hmetric _ => hcarries.offset_lt hmetric
    encode_eq := fun _ => hcarries.encode_eq
    count_le := hcarries.count_le
    columns_le := by rw [hcarries.size_eq_last, Nat.mul_comm]
    size_in_words := fun hwords => by
      rw [← UInt64.ofNat_mul, hcarries.size_eq]
      exact UInt64.toNat_ofNat_of_lt' hwords
    offset_in_words := fun hwords _ hmetric _ hsample => Delta.toNat_word_offset hwords hsample hmetric }

/-- A window with room for two deltas that began again, with two metrics instead of one. A sample of another schema and
one that was too many were refused, and the slots hold the steps between the three that were taken. -/
theorem buffer_laid_out_after_reset :
    let w := (run (empty 2 ⟨.stored, 6⟩) .empty
      [.add [("a", .int64 1)], .add [("a", .boolean true)], .resolve, .reset,
        .add [("t", .date 9), ("a", .array [.int32 5])], .add [("t", .date 7), ("a", .array [.int32 5])],
        .add [("t", .null)], .add [("t", .date 8), ("a", .array [.int32 6])],
        .add [("t", .date 0), ("a", .array [.int32 0])]]).1
    w.deltas.size = 4 ∧ w.deltas.get (Delta.offset 2 0 0) = -2 ∧ w.deltas.get (Delta.offset 2 1 0) = 1 ∧
      w.deltas.get (Delta.offset 2 0 1) = 0 ∧ w.deltas.get (Delta.offset 2 1 1) = 1 := by
  have hlaid := buffer_laid_out 2 ⟨.stored, 6⟩
    [.add [("a", .int64 1)], .add [("a", .boolean true)], .resolve, .reset,
      .add [("t", .date 9), ("a", .array [.int32 5])], .add [("t", .date 7), ("a", .array [.int32 5])],
      .add [("t", .null)], .add [("t", .date 8), ("a", .array [.int32 6])],
      .add [("t", .date 0), ("a", .array [.int32 0])]]
    [("t", .date 9), ("a", .array [.int32 5])]
    [[("t", .date 7), ("a", .array [.int32 5])], [("t", .date 8), ("a", .array [.int32 6])]] rfl
  obtain ⟨_, _, ⟨⟩, ⟨⟩, hdate⟩ := hlaid.get_offset 0 (by decide) 0 _ _ rfl rfl
  obtain ⟨_, _, ⟨⟩, ⟨⟩, hdate'⟩ := hlaid.get_offset 0 (by decide) 1 _ _ rfl rfl
  obtain ⟨_, _, ⟨⟩, ⟨⟩, hitem⟩ := hlaid.get_offset 1 (by decide) 0 _ _ rfl rfl
  obtain ⟨_, _, ⟨⟩, ⟨⟩, hitem'⟩ := hlaid.get_offset 1 (by decide) 1 _ _ rfl rfl
  exact ⟨hlaid.size_eq, hdate, hdate', hitem, hitem'⟩

end Window

end Telemetry

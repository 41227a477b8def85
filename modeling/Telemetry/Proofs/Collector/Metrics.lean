import Telemetry.Proofs.Chunk.Consistency
import Telemetry.Proofs.Collector.RoundTrip
import Telemetry.Proofs.Fingerprint
import Telemetry.Zlib.Stored

/-!
# Writer and reader see the same metrics

The metrics of a sample are found three times: what a sample contributes to a chunk are its readings, what a reader
expects of the chunk is its schema, and whether two samples may share a chunk is asked of its fingerprint. All three
agree on how many metrics there are, on their types and on the words they start with, and schema and readings begin with
the same date (`Document.SameMetrics`).

It stays so after a chunk has been written and read: a sample that was restored has the readings that the series of the
chunk say (`Chunk.Represents.words_structured`). A word of a series could stand for more than a reading of its type can
hold, but the words of a window do not, because each is that of a reading of a sample.

A window counts its samples without regard to the width of the field that their number is written in. If they are more than
the field counts, its columns are read as if they were shorter, one runs into the next, and all this is lost
(`Window.metrics_agree_only_within_count`).
-/

namespace Telemetry

open Collector

/-! ## Schema, readings and fingerprint -/

namespace Document

/-- The series of a sample start with the words of its readings. -/
theorem map_start_schema (d : Document) :
    (Document.schema d).map SeriesHead.start = (Document.readings d).map fun r => r.quantity.toInt64 := by
  have hwords := congrArg (List.map Prod.snd) (Document.map_schema d)
  rwa [List.map_map, List.map_map] at hwords

/-- The series of a sample have the types of its readings. -/
theorem map_type_schema (d : Document) : (Document.schema d).map SeriesHead.type = d.types := by
  have hwords := congrArg (List.map Prod.fst) (Document.map_schema d)
  rwa [List.map_map, List.map_map] at hwords

/-- The fingerprint of a sample counts its series. -/
theorem length_schema_eq_count (d : Document) : (Document.schema d).length = d.fingerprint.count := by
  rw [count_fingerprint, ← map_type_schema, List.length_map]

/-- The first date of a sample is the start of the first series of dates. -/
theorem firstDate?_eq (d : Document) :
    ((Document.schema d).find? fun s => s.type = .date).map SeriesHead.start = firstDate? (Document.readings d) := by
  have hfind := congrArg (fun words => (words.find? fun word => word.1 = MetricType.date).map Prod.snd)
    (Document.map_schema d)
  simp only [List.find?_map, Option.map_map] at hfind
  exact hfind

/-- Writer, reader and fingerprint see the same metrics in a sample: as many, of the same types, with the same words in the
same order, and the same first date. -/
structure SameMetrics (d : Document) : Prop where
  starts_eq : (Document.schema d).map SeriesHead.start = (Document.readings d).map fun r => r.quantity.toInt64
  types_eq : (Document.schema d).map SeriesHead.type = (Document.readings d).map Reading.type
  length_schema_eq : (Document.schema d).length = d.fingerprint.count
  length_readings_eq : (Document.readings d).length = d.fingerprint.count
  firstDate?_eq : ((Document.schema d).find? fun s => s.type = .date).map SeriesHead.start =
    firstDate? (Document.readings d)

theorem sameMetrics (d : Document) : d.SameMetrics where
  starts_eq := d.map_start_schema
  types_eq := d.map_type_schema
  length_schema_eq := d.length_schema_eq_count
  length_readings_eq := by rw [← Document.length_schema, Document.length_schema_eq_count]
  firstDate?_eq := d.firstDate?_eq

end Document

namespace Chunk

namespace InStep

variable {c : Chunk}

/-- A chunk in step starts with the first date of its reference. -/
theorem startTime?_eq (h : c.InStep) : c.startTime? = firstDate? (Document.readings c.reference) := by
  rw [← Document.firstDate?_eq, ← h.heads_eq, List.find?_map, Option.map_map]
  rfl

/-- A restored sample has readings of the types of the reference. -/
theorem exists_structured_types_eq (h : c.InStep) {i : Nat} (hi : i < c.length) :
    ∃ d, c.structured i = .ok d ∧ d.types = c.reference.types := by
  obtain ⟨d, hd, hrestores⟩ := h.exists_structured_eq hi
  exact ⟨d, hd, Document.types_eq_of_outline hrestores.outline_eq⟩

end InStep

/-! ## Readings of restored samples -/

namespace Represents

variable {c : Chunk} {first : Document} {rest : List Document} {i metric : Nat} {r : Reading} {s : Series}

/-- What a series of the chunk stands for at a sample has the word that the series has there. -/
theorem toInt64_readingAt (h : c.Represents first rest) (htypes : ∀ d ∈ rest, Document.types d = Document.types first)
    (hi : i ≤ rest.length) (hr : (Document.readings first)[metric]? = some r) (hs : c.series[metric]? = some s)
    (htype : s.type = r.type) : s.values[i]? = some (readingAt i r s).quantity.toInt64 := by
  have hsize : i < s.values.size := by
    rw [h.size_eq s (List.mem_of_getElem? hs)]
    exact Nat.lt_succ_of_le hi
  have hword : s.values[i]? = some (s.values.getD i 0) := by
    rw [Array.getD_eq_getD_getElem?, Array.getElem?_eq_getElem hsize]
    rfl
  rw [hword, readingAt]
  by_cases hdouble : s.type = .double
  · rw [← htype, hdouble]
    exact congrArg some (Double.toInt64_ofInt64 _).symm
  · -- the word is that of a reading of the sample, so the type of the series has room for it
    have hlt : i < (first :: rest).length := Nat.lt_succ_of_le hi
    obtain ⟨r', hr', hvalue⟩ := h.integer_eq hs hdouble (List.getElem?_eq_getElem hlt)
    obtain ⟨r'', hr'', htype'⟩ := exists_reading_of_types htypes hr _ (List.getElem_mem hlt)
    obtain rfl : r' = r'' := Option.some.inj (hr'.symm.trans hr'')
    have hgetD : s.values.getD i 0 = r'.quantity.toInt64 := Option.some.inj (hword.symm.trans hvalue)
    rw [hgetD, ← htype', Document.ofWord_readings _ r' (List.mem_of_getElem? hr')]

/-- A restored sample has the words of the series. -/
theorem words_structured (h : c.Represents first rest) (htypes : ∀ d ∈ rest, Document.types d = Document.types first)
    (hi : i ≤ rest.length) {d : Document} (hd : c.structured i = .ok d) :
    (Document.readings d).map (fun r => some r.quantity.toInt64) = c.series.map fun s => s.values[i]? := by
  obtain ⟨d', hd', -, hreadings⟩ := h.exists_structured_eq hi
  obtain rfl := Except.ok.inj (hd.symm.trans hd')
  rw [hreadings]
  apply List.ext_getElem?
  intro metric
  rw [List.getElem?_map, List.getElem?_map, List.getElem?_zipWith]
  cases hr : (Document.readings first)[metric]? with
  | none =>
    rw [List.getElem?_eq_none_iff, ← h.length_series, ← List.getElem?_eq_none_iff] at hr
    rw [hr]
    rfl
  | some r =>
    obtain ⟨s, hs, htype⟩ := h.exists_series hr
    rw [hs]
    exact congrArg some (h.toInt64_readingAt htypes hi hr hs htype).symm

end Represents

end Chunk

/-! ## Chunks of a window -/

namespace Window

/-- A chunk that was decoded from the payload of a window represents the samples that the window holds, if their number
fits its field. -/
theorem Holds.exists_represents {w : Window} {samples : List Document} (h : w.Holds samples)
    (hfits : samples.length ≤ UInt32.size) {payload body : Bytes} (hpayload : w.payload = .ok payload)
    (hbody : Payload.decompress body = .ok payload) {metadata? : Option Document} {c : Chunk}
    (hc : Chunk.ofBody metadata? body = .ok c) :
    ∃ first rest, samples = first :: rest ∧ c.Represents first rest ∧
      ∀ d ∈ rest, Document.types d = Document.types first := by
  cases samples with
  | nil =>
    rw [Window.payload, h.1] at hpayload
    cases hpayload
  | cons first rest =>
    have hcarries : w.Carries first rest := h
    obtain rfl : chunkPayload first rest = payload :=
      Except.ok.inj ((hcarries.payload_eq (hcarries.size_lt_of_payload hpayload)).symm.trans hpayload)
    rw [Chunk.ofBody, hbody] at hc
    obtain rfl := Chunk.eq_ofSamples_of_ofPayload (Payload.length_le_of_decompress hbody) hfits hc
    exact ⟨first, rest, rfl, Chunk.represents_ofSamples hcarries.types_eq metadata?, hcarries.types_eq⟩

/-- Schema, readings and fingerprint see the same metrics in every sample, and the first date is what a chunk tells as its
start. They do so in every sample that is restored from a chunk as well. Its readings have the types of the reference. In a
chunk of a window, whatever was asked of the window, if the number of its samples fits the field for it, they also have the
words of the series; where no metric is a double they are the values of the series as they stand. -/
theorem metrics_agree (maxDeltas : Nat) (z : Compression) (requests : List Request) :
    (∀ d : Document, d.SameMetrics) ∧
    (∀ (metadata? : Option Document) (body : Bytes) (c : Chunk), Chunk.ofBody metadata? body = .ok c →
      c.startTime? = firstDate? (Document.readings c.reference) ∧
      ∀ i < c.length, ∃ d, c.structured i = .ok d ∧
        (Document.readings d).map Reading.type = (Document.readings c.reference).map Reading.type) ∧
    ∀ (metadata? : Option Document) (payload body : Bytes) (c : Chunk),
      (run (empty maxDeltas z) .empty requests).1.payload = .ok payload →
      Payload.decompress body = .ok payload → Chunk.ofBody metadata? body = .ok c →
      (run (empty maxDeltas z) .empty requests).2.accepted.length ≤ UInt32.size →
      ∀ i < c.length, ∃ d, c.structured i = .ok d ∧
        (Document.readings d).map (fun r => some r.quantity.toInt64) = c.series.map (fun s => s.values[i]?) ∧
        ((∀ r ∈ Document.readings c.reference, r.type ≠ .double) →
          (Document.readings d).map (fun r => some r.quantity) =
            c.series.map fun s => s.values[i]?.map Quantity.integer) := by
  refine ⟨Document.sameMetrics, ?_, ?_⟩
  · intro metadata? body c hc
    have hstep := Chunk.inStep_of_ofBody hc
    exact ⟨hstep.startTime?_eq, fun i hi => hstep.exists_structured_types_eq hi⟩
  · intro metadata? payload body c hpayload hbody hc hfits i hi
    have hstart : (empty maxDeltas z).Holds Ledger.empty.accepted ∧
        (empty maxDeltas z).metadata? = Ledger.empty.metadata? := ⟨Holds.empty maxDeltas z, rfl⟩
    have hholds := (tracks_holds.run hstart requests).1
    obtain ⟨first, rest, -, hrepresents, htypes⟩ := hholds.exists_represents hfits hpayload hbody hc
    obtain ⟨d, hd, hdtypes⟩ := (Chunk.inStep_of_ofBody hc).exists_structured_types_eq hi
    rw [hrepresents.length_eq] at hi
    have hwords := hrepresents.words_structured htypes (Nat.le_of_lt_succ hi) hd
    refine ⟨d, hd, hwords, ?_⟩
    intro hnone
    have hvalues := congrArg (List.map (Option.map Quantity.integer)) hwords
    rw [List.map_map, List.map_map] at hvalues
    refine Eq.trans (List.map_congr_left ?_) hvalues
    intro r hr
    have htype : r.type ≠ .double := by
      have hmem : r.type ∈ c.reference.types := hdtypes ▸ List.mem_map_of_mem hr
      obtain ⟨r', hr', htype⟩ := List.mem_map.mp hmem
      exact htype ▸ hnone r' hr'
    obtain ⟨n, hn⟩ := Document.exists_integer_of_type hr htype
    rw [Function.comp_apply, hn]
    rfl

/-- A timestamp, a truth value and a date in an array are in step again after a refusal and a step down. -/
theorem metrics_agree_after_refusal :
    ∃ body c d, Payload.decompress body = (run (empty 4 ⟨.stored, 6⟩) .empty
        [.add [("t", .timestamp 3 4), ("a", .array [.boolean true, .date 9])], .add [("t", .null)],
          .add [("t", .timestamp 3 5), ("a", .array [.boolean false, .date 7])]]).1.payload ∧
      Chunk.ofBody none body = .ok c ∧ c.structured 1 = .ok d ∧
      (Document.readings d).map (fun r => some r.quantity) =
        c.series.map fun s => s.values[1]?.map Quantity.integer := by
  have hpayload : (run (empty 4 ⟨.stored, 6⟩) .empty
      [.add [("t", .timestamp 3 4), ("a", .array [.boolean true, .date 9])], .add [("t", .null)],
        .add [("t", .timestamp 3 5), ("a", .array [.boolean false, .date 7])]]).1.payload =
      .ok (chunkPayload [("t", .timestamp 3 4), ("a", .array [.boolean true, .date 9])]
        [[("t", .timestamp 3 5), ("a", .array [.boolean false, .date 7])]]) := rfl
  have hsize : (chunkPayload [("t", .timestamp 3 4), ("a", .array [.boolean true, .date 9])]
      [[("t", .timestamp 3 5), ("a", .array [.boolean false, .date 7])]]).length ≤ maxPayloadSize := by
    decide +kernel
  have hbody := Payload.decompress_compress hsize
    (Payload.compress_eq (Nat.lt_of_le_of_lt hsize (by decide)) ⟨.stored, 6⟩)
  obtain ⟨c, hc, hrepresents⟩ := Chunk.exists_ofBody_eq (by decide) hsize (by decide) (by decide) hbody none
  obtain ⟨-, -, hrun⟩ := metrics_agree 4 ⟨.stored, 6⟩
    [.add [("t", .timestamp 3 4), ("a", .array [.boolean true, .date 9])], .add [("t", .null)],
      .add [("t", .timestamp 3 5), ("a", .array [.boolean false, .date 7])]]
  obtain ⟨d, hd, -, hvalues⟩ := hrun none _ _ c hpayload hbody hc (by decide) 1
    (by rw [hrepresents.length_eq]; decide)
  refine ⟨_, c, d, hbody.trans hpayload.symm, hc, hd, hvalues ?_⟩
  rw [hrepresents.reference_eq]
  decide

/-- A sample of a number and a truth value. -/
def numbered (n : Int64) : Document :=
  [("a", .int64 n), ("b", .boolean true)]

/-- Two numbers after the first sample, of which the second comes again and again. -/
def repeats (n : Nat) : List Document :=
  numbered 1 :: List.replicate (n + 1) (numbered 7)

/-- A window with room takes all of them. -/
theorem carries_repeats (n : Nat) :
    (run (empty (n + 2) ⟨.stored, 6⟩) .empty ((numbered 0 :: repeats n).map .add)).1.Carries (numbered 0) (repeats n) := by
  have htypes : ∀ d ∈ numbered 0 :: repeats n, Document.types d = [.int64, .boolean] := by
    intro d hd
    simp only [repeats, List.mem_cons, List.mem_replicate] at hd
    rcases hd with rfl | rfl | ⟨-, rfl⟩ <;> rfl
  exact holds_of_adds (by simp [repeats]) (fun d hd e he => (htypes d hd).trans (htypes e he).symm) ⟨.stored, 6⟩

/-- Their columns: two steps and zeros, and zeros alone. -/
theorem columns_of_repeats (n : Nat) :
    ((List.range (Document.readings (numbered 0)).length).map fun metric =>
      Document.steps metric (numbered 0) (repeats n)).flatMap Delta.encodeColumn =
      Varint.encode 1 ++ Varint.encode 6 ++ Delta.zeroRun n ++ Delta.zeroRun (n + 2) := by
  have hnumbers : Document.steps 0 (numbered 0) (repeats n) = 1 :: 6 :: List.replicate n 0 := by
    have hone : Document.step 0 (numbered 0) (numbered 1) = 1 := by decide
    have hsix : Document.step 0 (numbered 1) (numbered 7) = 6 := by decide
    rw [repeats, Document.steps, List.replicate_succ, Document.steps, Document.steps_replicate (by decide), hone, hsix]
  have hflags : Document.steps 1 (numbered 0) (repeats n) = List.replicate (n + 2) 0 := by
    have hfirst : Document.step 1 (numbered 0) (numbered 1) = 0 := by decide
    have hsecond : Document.step 1 (numbered 1) (numbered 7) = 0 := by decide
    rw [repeats, Document.steps, List.replicate_succ, Document.steps, Document.steps_replicate (by decide), hfirst,
      hsecond]
    rfl
  have hcolumn : Delta.encodeColumn (1 :: 6 :: List.replicate n 0) =
      Varint.encode 1 ++ (Varint.encode 6 ++ Delta.zeroRun n) := by
    rw [Delta.encodeColumn, Delta.encodeFrom, if_neg (by decide), Delta.encodeFrom, if_neg (by decide),
      Delta.encodeFrom_replicate, Nat.zero_add]
    rfl
  have hrange : List.range (Document.readings (numbered 0)).length = [0, 1] := rfl
  rw [hrange, List.map_cons, List.map_cons, hnumbers, hflags, List.flatMap_cons, List.flatMap_cons, hcolumn,
    Delta.encodeColumn, Delta.encodeFrom_replicate, Nat.zero_add]
  simp

/-- The payload of a window that holds them. -/
theorem payload_of_repeats (n : Nat) :
    (run (empty (n + 2) ⟨.stored, 6⟩) .empty ((numbered 0 :: repeats n).map .add)).1.payload =
      .ok (Document.bytes (numbered 0) ++ Bytes.ofNat 4 2 ++ Bytes.ofNat 4 (n + 2) ++
        (Varint.encode 1 ++ Varint.encode 6 ++ Delta.zeroRun n ++ Delta.zeroRun (n + 2))) := by
  have hlength : (repeats n).length = n + 2 := by simp [repeats]
  rw [(carries_repeats n).payload_eq (by decide), chunkPayload, columns_of_repeats, hlength]
  rfl

/-- With more samples than the field for their number counts, the words of one series are read as those of another. -/
theorem metrics_agree_only_within_count :
    let samples := numbered 0 :: numbered 1 :: List.replicate (2 ^ 32) (numbered 7)
    ∃ payload body c d, (run (empty (2 ^ 32 + 1) ⟨.stored, 6⟩) .empty (samples.map .add)).1.payload = .ok payload ∧
      Payload.decompress body = .ok payload ∧ Chunk.ofBody none body = .ok c ∧ c.structured 1 = .ok d ∧
      (∀ r ∈ Document.readings c.reference, r.type ≠ .double) ∧
      (Document.readings d).map Reading.quantity = [.integer 1, .integer 1] ∧
      c.series.map (fun s => s.values[1]?) = [some 1, some 7] := by
  suffices h : ∀ n, n = 2 ^ 32 - 1 → ∃ payload body c d,
      (run (empty (n + 2) ⟨.stored, 6⟩) .empty
        ((numbered 0 :: numbered 1 :: List.replicate (n + 1) (numbered 7)).map .add)).1.payload = .ok payload ∧
      Payload.decompress body = .ok payload ∧ Chunk.ofBody none body = .ok c ∧ c.structured 1 = .ok d ∧
      (∀ r ∈ Document.readings c.reference, r.type ≠ .double) ∧
      (Document.readings d).map Reading.quantity = [.integer 1, .integer 1] ∧
      c.series.map (fun s => s.values[1]?) = [some 1, some 7] from h 4294967295 (by decide)
  intro n hn
  have hpayload := payload_of_repeats n
  have hbytes : Document.bytes (numbered 0) ++ Bytes.ofNat 4 2 ++ Bytes.ofNat 4 (n + 2) ++
      (Varint.encode 1 ++ Varint.encode 6 ++ Delta.zeroRun n ++ Delta.zeroRun (n + 2)) =
      Document.bytes (numbered 0) ++ [2, 0, 0, 0, 1, 0, 0, 0, 1, 6, 0, 254, 255, 255, 255, 15, 0, 128, 128, 128, 128,
        16] := by
    rw [hn]
    decide +kernel
  rw [hbytes] at hpayload
  generalize hshort : Document.bytes (numbered 0) ++ [2, 0, 0, 0, 1, 0, 0, 0, 1, 6, 0, 254, 255, 255, 255, 15, 0, 128, 128,
    128, 128, 16] = payload at hpayload
  have hsize : payload.length ≤ maxPayloadSize := by rw [← hshort]; decide +kernel
  have hchunk : Chunk.ofPayload none payload =
      .ok ⟨numbered 0, none, [⟨⟨["a"], .int64, 0⟩, #[0, 1]⟩, ⟨⟨["b"], .boolean, 1⟩, #[1, 7]⟩], 1⟩ := by
    rw [← hshort]
    with_unfolding_all rfl
  have hbody := Payload.decompress_compress hsize
    (Payload.compress_eq (Nat.lt_of_le_of_lt hsize (by decide)) ⟨.stored, 6⟩)
  refine ⟨payload, _, _, numbered 1, hpayload, hbody, (by rw [Chunk.ofBody, hbody]; exact hchunk), ?_, ?_, rfl, rfl⟩
  · with_unfolding_all rfl
  · decide

end Window

end Telemetry

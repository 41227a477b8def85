import Telemetry.Proofs.Chunk.Restore
import Telemetry.Proofs.Delta

/-!
# Chunks that can be decoded are consistent

A body may be forged or damaged. If it decodes at all, its chunk has one series for each metric of its reference
and in each series one value for each sample, the first of which is the reference's (`Chunk.InStep`): the number
of metrics was held against the reference, and every column was filled to the number of deltas.

That is all that restoring needs, so no sample of a decoded chunk is beyond reach (`Chunk.consistent_of_ofBody`).
-/

namespace Telemetry.Chunk

/-! ## What is decoded -/

/-- What a payload that decodes has in it: a reference, the number of its metrics, and for each a column of deltas. -/
theorem exists_of_ofPayload {metadata? : Option Document} {payload : Bytes} {c : Chunk}
    (h : ofPayload metadata? payload = .ok c) :
    ∃ reference used counts stream columns left,
      Document.decode payload = .ok (reference, used) ∧
      Bytes.split? 8 (payload.drop used) = some (counts, stream) ∧
      (Document.schema reference).length = Bytes.toNat (counts.take 4) ∧
      Delta.decode (Bytes.toNat (counts.take 4)) (Bytes.toNat (counts.drop 4)) stream = .ok (columns, left) ∧
      c = ⟨reference, metadata?, ((Document.schema reference).zip columns).map fun (head, column) =>
        { toSeriesHead := head, values := Delta.runningSums head.start column }, Bytes.toNat (counts.drop 4)⟩ := by
  rw [ofPayload] at h
  split at h
  · simp at h
  · next reference used hreference =>
    split at h
    · simp at h
    · next counts stream hcounts =>
      dsimp only at h
      split at h
      · simp at h
      · next hheld =>
        split at h
        · simp at h
        · next columns left hdecode =>
          exact ⟨reference, used, counts, stream, columns, left, hreference, hcounts, Decidable.not_not.mp hheld, hdecode,
            (Except.ok.inj h).symm⟩

/-- A body that decodes is that of a payload. -/
theorem exists_of_ofBody {metadata? : Option Document} {body : Bytes} {c : Chunk}
    (h : ofBody metadata? body = .ok c) :
    ∃ payload, Payload.decompress body = .ok payload ∧ ofPayload metadata? payload = .ok c := by
  rw [ofBody] at h
  split at h
  · next payload hinflate => exact ⟨payload, hinflate, h⟩
  · simp at h

/-- A chunk has the document it was decoded with. -/
theorem metadata?_of_ofBody {metadata? : Option Document} {body : Bytes} {c : Chunk}
    (h : ofBody metadata? body = .ok c) : c.metadata? = metadata? := by
  obtain ⟨payload, -, hpayload⟩ := exists_of_ofBody h
  obtain ⟨_, _, _, _, _, _, -, -, -, -, rfl⟩ := exists_of_ofPayload hpayload
  rfl

/-! ## Series in step with the reference -/

/-- The series of a chunk are those of its reference, one for each metric, with a value for each sample, the first of
which is that of the reference. -/
structure InStep (c : Chunk) : Prop where
  heads_eq : c.series.map Series.toSeriesHead = Document.schema c.reference
  size_eq : ∀ s ∈ c.series, s.values.size = c.length
  first_eq : ∀ s ∈ c.series, s.values[0]? = some s.start

/-- A payload that decodes, decodes to a chunk in step. -/
theorem inStep_of_ofPayload {metadata? : Option Document} {payload : Bytes} {c : Chunk}
    (h : ofPayload metadata? payload = .ok c) : c.InStep := by
  obtain ⟨reference, _, counts, _, columns, _, -, -, hheld, hdecode, rfl⟩ := exists_of_ofPayload h
  obtain ⟨hcolumns, hdeltas⟩ := Delta.length_of_decode hdecode
  refine ⟨?_, ?_, ?_⟩
  · show (List.map _ (List.zip _ _)).map _ = _
    rw [List.map_map]
    show List.map Prod.fst _ = _
    rw [List.map_fst_zip (by omega)]
  · intro s hs
    obtain ⟨⟨head, column⟩, hmem, rfl⟩ := List.mem_map.mp hs
    rw [Delta.size_runningSums, hdeltas column (List.of_mem_zip hmem).2]
    rfl
  · intro s hs
    obtain ⟨⟨head, column⟩, -, rfl⟩ := List.mem_map.mp hs
    rw [Delta.getElem?_runningSums (Nat.zero_le _)]
    rfl

/-- A body that decodes, decodes to a chunk in step. -/
theorem inStep_of_ofBody {metadata? : Option Document} {body : Bytes} {c : Chunk}
    (h : ofBody metadata? body = .ok c) : c.InStep := by
  obtain ⟨payload, -, hpayload⟩ := exists_of_ofBody h
  exact inStep_of_ofPayload hpayload

namespace InStep

variable {c : Chunk}

theorem length_series (h : c.InStep) : c.series.length = (Document.readings c.reference).length := by
  simpa using congrArg List.length h.heads_eq

/-- Every sample can be restored: the reference with its metrics replaced by the values of the series. -/
theorem exists_structured_eq (h : c.InStep) {i : Nat} (hi : i < c.length) :
    ∃ d, c.structured i = .ok d ∧ Restores Document.outline Document.readings i c.series c.reference d :=
  structured_eq hi h.length_series fun s hs => by rw [h.size_eq s hs]; exact hi

/-- The first values of the series stand for the readings of the reference. -/
theorem readingAt_zero (h : c.InStep) :
    List.zipWith (readingAt 0) (Document.readings c.reference) c.series = Document.readings c.reference := by
  apply List.ext_getElem (by rw [List.length_zipWith, h.length_series, Nat.min_self])
  intro metric hmetric hlt
  have hmetric' : metric < c.series.length := by rwa [h.length_series]
  have hword := congrArg (·[metric]?) (Document.map_schema c.reference)
  rw [← h.heads_eq] at hword
  simp only [List.getElem?_map, List.getElem?_eq_getElem hmetric', List.getElem?_eq_getElem hlt, Option.map_some,
    Option.some.injEq, SeriesHead.word, Reading.word, Prod.mk.injEq] at hword
  have hfirst := h.first_eq c.series[metric] (List.getElem_mem hmetric')
  rw [List.getElem_zipWith, readingAt, Array.getD_eq_getD_getElem?, hfirst, Option.getD_some, hword.2]
  exact Document.ofWord_readings c.reference _ (List.getElem_mem hlt)

/-- The first sample is the reference. -/
theorem structured_zero (h : c.InStep) : c.structured 0 = .ok c.reference := by
  obtain ⟨d, hd, houtline, hreadings⟩ := h.exists_structured_eq (Nat.succ_pos c.deltas)
  rw [h.readingAt_zero] at hreadings
  rw [hd, Document.eq_of_outline_of_readings houtline hreadings]

end InStep

/-! ## Consistency -/

/-- A chunk that gives every one of its samples, in either shape, and no other.

Every series has a value for every sample, and begins with the value it starts with. In the shape of the reference,
only the values of the metrics of a sample are its own; the first sample is the reference, down to the bits of its
doubles. -/
structure IsConsistent (c : Chunk) : Prop where
  length_pos : 1 ≤ c.length
  series_eq : ∀ s ∈ c.series, s.values.size = c.length ∧ s.values[0]? = some s.start
  structured_eq : ∀ i < c.length,
    ∃ d, c.structured i = .ok d ∧ Document.outline d = Document.outline c.reference
  flattened_eq : ∀ i < c.length, ∃ d, c.flattened i = .ok d
  outside : ∀ i, c.length ≤ i →
    c.structured i = .error (.invalidFormat (.sampleIndex i c.length)) ∧
      c.flattened i = .error (.invalidFormat (.sampleIndex i c.length))
  structured_zero : c.structured 0 = .ok c.reference

/-- Whatever the bytes of a body, the chunk in it, if there is one, is consistent. -/
theorem consistent_of_ofBody {metadata? : Option Document} {body : Bytes} {c : Chunk}
    (h : ofBody metadata? body = .ok c) : c.IsConsistent := by
  have hstep := inStep_of_ofBody h
  refine ⟨Nat.succ_pos c.deltas, ?_, ?_, ?_, ?_, hstep.structured_zero⟩
  · intro s hs
    exact ⟨hstep.size_eq s hs, hstep.first_eq s hs⟩
  · intro i hi
    obtain ⟨d, hd, houtline, -⟩ := hstep.exists_structured_eq hi
    exact ⟨d, hd, houtline⟩
  · intro i hi
    exact ⟨_, by rw [flattened, if_neg (by omega)]⟩
  · intro i hi
    exact ⟨by rw [structured, if_pos hi], by rw [flattened, if_pos hi]⟩

/-- A body that no collector would write: the seconds of a timestamp take a step of `2 ^ 32`, and a byte follows
the deltas. -/
theorem consistent_of_ofBody_forged :
    ∃ c, ofBody none [49, 0, 0, 0, 120, 1, 1, 49, 0, 206, 255, 33, 0, 0, 0, 1, 0, 0, 0, 0, 0, 0, 0, 1, 0, 0, 0, 0,
        0, 0, 0, 116, 5, 0, 0, 0, 7, 0, 0, 0, 1, 0, 0, 0, 2, 0, 0, 0, 1, 0, 0, 0, 128, 128, 128, 128, 16, 0, 0, 9,
        34, 181, 2, 193] = .ok c ∧
      c.length = 2 ∧ c.IsConsistent := by
  refine ⟨⟨[("t", .timestamp 7 1)], none,
    [⟨⟨["t"], .timestamp, 7⟩, #[7, 4294967303]⟩, ⟨⟨["t"], .timestamp, 1⟩, #[1, 1]⟩], 1⟩,
    ?body, rfl, consistent_of_ofBody ?body⟩
  with_unfolding_all rfl

end Telemetry.Chunk

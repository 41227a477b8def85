import Telemetry.Proofs.Chunk.Consistency
import Telemetry.Proofs.Chunk.Reader
import Telemetry.Proofs.Collector.Segment
import Telemetry.Zlib.Stored

/-!
# What a reader takes back from a window

A window resolves whenever the lengths of its documents and of its payload fit in front of them. A reader wants more: no
record, no payload and no number of values beyond its limits (`Segment.WithinLimits`). A window knows nothing of these
limits, so that there are windows whose own reader refuses what they have written.

`Window.read_back_iff` says which: of the bytes of a window that resolved, whoever compressed its payload, a reader
delivers one chunk with all samples and metrics exactly if the segment is within the limits. Seventeen million samples
without metrics are not (`Window.read_back_iff_too_many_samples`).

## Shape of the proof

Within the limits the records come back one by one and the chunk represents the samples. The other way, a reader that
delivers the chunk has found a record where the metadata record stands, and one where the chunk record stands. A record
whose length does not fit in front is found shorter than it is (`Record.of_encode_append_eq`), but the payload's own
length is then still in front of its body, so that a payload within its limit rules this out.
-/

namespace Telemetry

open Collector Record ChunkReader

/-! ## Segments compressed by anyone -/

namespace Segment

/-- The records of a segment whose payload was compressed to the given stream. -/
def recordsWith (stream : Bytes) (s : Segment) : List Record :=
  front s.metadata? ++ [.ofChunk (Bytes.ofNat Payload.lengthSize (payload s.samples).length ++ stream)]

theorem records_eq (z : Compression) (s : Segment) :
    s.records z = s.recordsWith (z.stream (payload s.samples)) :=
  rfl

/-- A segment is within the limits of a reader, with its payload compressed to the given stream. -/
structure WithinLimits (stream : Bytes) (s : Segment) : Prop where
  payload_le : (payload s.samples).length ≤ maxPayloadSize
  samples_le : s.samples.length - 1 ≤ maxChunkValues
  values_le : metrics s.samples * (s.samples.length - 1) ≤ maxChunkValues
  records_le : ∀ r ∈ s.recordsWith stream, r.frame.length ≤ maxRecordSize

end Segment

/-! ## Windows after requests -/

namespace Window

/-- A window is filled from the samples in its ledger, behind the document in the ledger. -/
theorem tracks_fills (z : Compression) : Tracks fun (w : Window) l => w.Fills z ⟨l.metadata?, l.accepted⟩ where
  added := fun h hadd => h.added hadd
  refused := fun h hadd => eq_of_add_error hadd ▸ h
  metadataSet := fun h => h.setMetadata _
  resolved := id
  begun := fun {w} _ h => ⟨.reset w, rfl, h.compression_eq⟩

end Window

/-! ## What a reader finds -/

namespace ChunkReader

/-- The first record of a stream that gives one chunk gives the chunk, or nothing and then the others give the chunk. -/
theorem exists_first_record {before rs : List Record} {t : Bytes} {c : Chunk}
    (h : untilError (outcomes before rs ++ ending t) = [.ok c]) :
    ∃ r rs', rs = r :: rs' ∧ (outcome? before r = some (.ok c) ∨
      outcome? before r = none ∧ untilError (outcomes (before ++ [r]) rs' ++ ending t) = [.ok c]) := by
  cases rs with
  | nil =>
    rw [outcomes, List.nil_append, ending] at h
    split at h <;> simp [untilError] at h
  | cons r rs =>
    refine ⟨r, rs, rfl, ?_⟩
    rw [outcomes] at h
    cases houtcome : outcome? before r with
    | none =>
      rw [houtcome] at h
      exact .inr ⟨rfl, h⟩
    | some result =>
      rw [houtcome] at h
      cases result with
      | error e => simp [untilError] at h
      | ok c' =>
        obtain ⟨hc, -⟩ := List.cons_eq_cons.mp h
        rw [hc]
        exact .inl rfl

end ChunkReader

namespace Record

/-- Where a metadata record was written, a reader finds that record: a frame too long for its length in front would be
found too short to be one. -/
theorem eq_of_metadata {d : Document} {r : Record} {rest rest' : Bytes} (hd : Document.size d < UInt32.size)
    (h : r.encode ++ rest' = (⟨.metadata, Document.bytes d⟩ : Record).encode ++ rest)
    (hsize : r.frame.length ≤ maxRecordSize) : r = ⟨.metadata, Document.bytes d⟩ ∧ rest' = rest := by
  have hword : maxRecordSize < UInt32.size := by decide
  obtain ⟨hlength, -, -, hsame⟩ := of_encode_append_eq h (Nat.lt_of_le_of_lt hsize hword)
  refine hsame ?_
  rw [length_frame, length_frame, Document.length_bytes] at hlength
  rw [length_frame, Document.length_bytes]
  rw [UInt32.size] at hd hlength ⊢
  by_contra hlong
  rw [Nat.mod_eq_sub_mod (Nat.le_of_not_lt hlong), Nat.mod_eq_of_lt (by omega)] at hlength
  omega

/-- A metadata record that was written gives nothing by itself. -/
theorem outcome?_of_metadata {d : Document} (hd : Document.size d < UInt32.size) (before : List Record) :
    outcome? before ⟨.metadata, Document.bytes d⟩ = none := by
  have hdecode := Document.decode_bytes hd []
  rw [List.append_nil] at hdecode
  rw [outcome?, hdecode]

/-- Where a chunk record was written and a reader finds a chunk, the reader finds that record. -/
theorem eq_of_chunk {payload stream : Bytes} (hfits : payload.length < UInt32.size)
    (hstream : Zlib.Deflates stream payload) {r : Record} {rest : Bytes}
    (h : r.encode ++ rest = (ofChunk (Bytes.ofNat Payload.lengthSize payload.length ++ stream)).encode)
    (hsize : r.frame.length ≤ maxRecordSize) {before : List Record} {c : Chunk}
    (houtcome : outcome? before r = some (.ok c)) :
    payload.length ≤ maxPayloadSize ∧
      r = ofChunk (Bytes.ofNat Payload.lengthSize payload.length ++ stream) := by
  have hword : maxRecordSize < UInt32.size := by decide
  rw [← List.append_nil (ofChunk _).encode] at h
  obtain ⟨-, -, ⟨check, more, hbodies⟩, hsame⟩ := of_encode_append_eq h (Nat.lt_of_le_of_lt hsize hword)
  -- the body is an accepted payload, so that its length is in front of it
  have hbody := (outcome?_eq_ok_iff.mp houtcome).2
  obtain ⟨inflated, hinflate, -⟩ := Chunk.exists_of_ofBody hbody
  obtain ⟨declared, tail, hdeclared, hlimit⟩ := Payload.exists_of_decompress hinflate
  rw [Bytes.readWord?, Option.map_eq_some_iff] at hdeclared
  obtain ⟨⟨front, back⟩, hsplit, heq⟩ := hdeclared
  obtain ⟨hfront, hlen⟩ := Bytes.split?_eq_some_iff.mp hsplit
  obtain ⟨rfl, rfl⟩ := Prod.mk.inj heq
  rw [hfront, ofChunk, List.append_assoc, List.append_assoc] at hbodies
  obtain ⟨rfl, -⟩ := List.append_inj hbodies (hlen.trans (Bytes.length_ofNat _ _).symm)
  have hpayload : Bytes.toNat (Bytes.ofNat Payload.lengthSize payload.length) = payload.length :=
    Bytes.toNat_ofNat_of_lt hfits
  rw [hpayload] at hlimit
  refine ⟨hlimit, (hsame ?_).1⟩
  have hgrown := hstream.length_le
  rw [maxPayloadSize] at hlimit
  rw [length_frame, ofChunk, List.length_append, Bytes.length_ofNat, Payload.lengthSize, UInt32.size]
  omega

end Record

namespace Window.Fills

variable {z : Compression} {w : Window} {s : Segment} {stream : Bytes} {source : Source}

/-- A reader delivers what is within its limits. -/
theorem exists_delivered (h : w.Fills z s) (hne : s.samples ≠ [])
    (hstream : Zlib.Deflates stream (Segment.payload s.samples)) (hs : s.WithinLimits stream)
    (hw : s.Writable) (hsource : source.Holds ((s.recordsWith stream).flatMap encode)) :
    ∃ c, (∀ n, nthNext (ofSource source) n = [Except.ok c][n]?) ∧ c.length = w.info.samples ∧
      c.series.length = w.info.metrics := by
  obtain ⟨first, rest, hsamples, hcarries⟩ := h.exists_carries hne
  have hinflate := Payload.decompress_of_deflates hstream hs.payload_le
  have hsize := hs.payload_le
  have hcount := hs.samples_le
  have hvalues := hs.values_le
  have hinfo := h.info_eq
  simp only [Segment.payload, Segment.metrics, hsamples, List.length_cons, Nat.add_sub_cancel, List.head?_cons,
    Option.map_some, Option.getD_some] at hinflate hsize hcount hvalues hinfo
  obtain ⟨c, hc, hrepresents⟩ :=
    Chunk.exists_ofBody_eq hcarries.types_eq hsize hcount hvalues hinflate s.metadata?
  refine ⟨c, fun n => ?_, by rw [hrepresents.length_eq, hinfo], by rw [hrepresents.length_series, hinfo]⟩
  have houtcomes : outcomes [] (s.recordsWith stream) = [.ok c] := by
    rw [Segment.recordsWith, hsamples]
    cases hmetadata : s.metadata? with
    | none =>
      rw [hmetadata] at hc
      simpa [Segment.front, outcomes, outcome?, ofChunk, lastMetadata?, Segment.payload] using hc
    | some d =>
      have hd := hw.metadata_lt d hmetadata
      have hdecode := Document.decode_bytes hd []
      rw [List.append_nil] at hdecode
      have hlast : lastMetadata? [⟨.metadata, Document.bytes d⟩] = some d := by
        simp [lastMetadata?, Record.metadata?, hdecode]
      rw [hmetadata] at hc
      simp only [Segment.front, Option.toList_some, List.map_singleton, List.singleton_append, outcomes,
        outcome?_of_metadata hd, List.nil_append]
      simpa [outcome?, ofChunk, hlast, Segment.payload] using hc
  rw [← List.append_nil (List.flatMap _ _)] at hsource
  rw [nthNext_ofSource hs.records_le (.inl rfl) hsource, houtcomes, ending, front_nil]
  rfl

/-- What a reader delivers as one chunk with all the samples is within its limits. -/
theorem withinLimits_of_delivered (h : w.Fills z s) (hne : s.samples ≠ [])
    (hstream : Zlib.Deflates stream (Segment.payload s.samples)) (hw : s.Writable)
    (hsource : source.Holds ((s.recordsWith stream).flatMap encode)) {c : Chunk}
    (hdelivered : ∀ n, nthNext (ofSource source) n = [Except.ok c][n]?) (hlength : c.length = w.info.samples) :
    s.WithinLimits stream := by
  obtain ⟨first, rest, hsamples, hcarries⟩ := h.exists_carries hne
  obtain ⟨rs, t, hbytes, hsize, hend⟩ := exists_records ((s.recordsWith stream).flatMap encode)
  have hitems : untilError (outcomes [] rs ++ ending t) = [.ok c] := by
    refine List.ext_getElem? fun n => ?_
    rw [← nthNext_ofSource hsize hend (hbytes ▸ hsource), hdelivered]
  -- a chunk where the chunk record was written tells that the record and its counts are within the limits
  have hchunk {before : List Record} {r : Record} {more : Bytes} (hr : r.frame.length ≤ maxRecordSize)
      (hmore : r.encode ++ more =
        (ofChunk (Bytes.ofNat Payload.lengthSize (Segment.payload s.samples).length ++ stream)).encode)
      (houtcome : outcome? before r = some (.ok c)) (hfront : ∀ r ∈ Segment.front s.metadata?,
        r.frame.length ≤ maxRecordSize) : s.WithinLimits stream := by
    obtain ⟨hpayload, rfl⟩ := eq_of_chunk hw.payload_lt hstream hmore hr houtcome
    have hbody := (outcome?_eq_ok_iff.mp houtcome).2
    rw [Chunk.ofBody, ofChunk, Payload.decompress_of_deflates hstream hpayload] at hbody
    simp only [hsamples, Segment.payload] at hbody hpayload
    rw [h.info_eq, hsamples] at hlength
    obtain ⟨hcount, hvalues⟩ := Chunk.limits_of_ofPayload_chunkPayload hpayload hbody hlength
    refine ⟨by rwa [hsamples], by rwa [hsamples], by rwa [hsamples], fun r' hr' => ?_⟩
    rcases List.mem_append.mp hr' with hr' | hr'
    · exact hfront r' hr'
    · exact List.mem_singleton.mp hr' ▸ hr
  obtain ⟨r, rs, rfl, hfirst⟩ := exists_first_record hitems
  have hr := hsize r List.mem_cons_self
  rw [List.flatMap_cons, List.append_assoc, Segment.recordsWith, List.flatMap_append, List.flatMap_singleton]
    at hbytes
  cases hmetadata : s.metadata? with
  | none =>
    rw [hmetadata] at hbytes hchunk
    rcases hfirst with hok | ⟨hnone, -⟩
    · exact hchunk hr hbytes.symm hok (by simp [Segment.front])
    · -- a chunk record gives something
      obtain ⟨-, hkind, -⟩ := of_encode_append_eq (hbytes.symm.trans (List.append_nil _).symm)
        (Nat.lt_of_le_of_lt hr (by decide))
      rw [outcome?, hkind] at hnone
      simp [ofChunk] at hnone
  | some d =>
    have hd := hw.metadata_lt d hmetadata
    rw [hmetadata] at hbytes hchunk
    simp only [Segment.front, Option.toList_some, List.map_singleton, List.flatMap_singleton] at hbytes
    obtain ⟨rfl, hrest⟩ := eq_of_metadata hd hbytes.symm hr
    rw [outcome?_of_metadata hd] at hfirst
    obtain ⟨-, hitems⟩ := hfirst.resolve_left (by simp)
    obtain ⟨r', rs, rfl, hsecond⟩ := exists_first_record hitems
    have hr' := hsize r' (by simp)
    rw [List.flatMap_cons, List.append_assoc] at hrest
    rcases hsecond with hok | ⟨hnone, -⟩
    · exact hchunk hr' hrest hok (by simpa [Segment.front] using hr)
    · obtain ⟨-, hkind, -⟩ := of_encode_append_eq (hrest.trans (List.append_nil _).symm)
        (Nat.lt_of_le_of_lt hr' (by decide))
      rw [outcome?, hkind] at hnone
      simp [ofChunk] at hnone

end Window.Fills

namespace Window

/-- A window and its reader. Let a window resolve after any requests. What it gives are the records of its segment, with
its payload compressed. Whoever has compressed the payload, and whatever the schedule of the source, a reader of these
records delivers one chunk and nothing else, with as many samples and metrics as the window tells of, exactly if the
segment is within the reader's limits. The window itself holds its samples against none of them. -/
theorem read_back_iff (maxDeltas : Nat) (z : Compression) (requests : List Request) (bytes : Bytes)
    (hresolve : (run (empty maxDeltas z) .empty requests).1.resolve = .ok bytes) :
    let w := (run (empty maxDeltas z) .empty requests).1
    let l := (run (empty maxDeltas z) .empty requests).2
    let s : Segment := ⟨l.metadata?, l.accepted⟩
    (∃ stream, Zlib.Deflates stream (Segment.payload s.samples) ∧ bytes = (s.recordsWith stream).flatMap encode) ∧
    ∀ stream, Zlib.Deflates stream (Segment.payload s.samples) →
      ∀ source : Source, source.Holds ((s.recordsWith stream).flatMap encode) →
        ((∃ c, (∀ n, nthNext (ofSource source) n = [Except.ok c][n]?) ∧ c.length = w.info.samples ∧
          c.series.length = w.info.metrics) ↔ s.WithinLimits stream) := by
  intro w l s
  have hfills : w.Fills z s := (tracks_fills z).run (l := Ledger.empty) (.empty maxDeltas z) requests
  have hne : s.samples ≠ [] := by
    intro hnil
    have hnone := hfills.resolve_nil hnil
    rw [show w.resolve = .ok bytes from hresolve] at hnone
    simp at hnone
  have hw := hfills.writable_of_resolve hne hresolve
  refine ⟨⟨_, z.deflates _, ?_⟩, fun stream hstream source hsource => ?_⟩
  · rw [← Segment.records_eq]
    exact Except.ok.inj ((show w.resolve = .ok bytes from hresolve).symm.trans (hfills.resolve_eq hne hw))
  · constructor
    · rintro ⟨c, hdelivered, hlength, -⟩
      exact hfills.withinLimits_of_delivered hne hstream hw hsource hdelivered hlength
    · exact fun hs => hfills.exists_delivered hne hstream hs hw hsource

/-- A window with room for 16777218 samples takes as many without metrics and resolves, and no reader delivers them. -/
theorem read_back_iff_too_many_samples :
    ∃ bytes, (run (empty 16777217 ⟨.stored, 6⟩) .empty (List.replicate 16777218 (.add []))).1.resolve = .ok bytes ∧
      (run (empty 16777217 ⟨.stored, 6⟩) .empty (List.replicate 16777218 (.add []))).1.info = ⟨16777218, 0⟩ ∧
      ∀ source : Source, source.Holds bytes → ¬ ∃ c, (∀ n, nthNext (ofSource source) n = [Except.ok c][n]?) ∧
        c.length = 16777218 ∧ c.series.length = 0 := by
  -- nothing depends on the number but that it is beyond the limit
  suffices h : ∀ deltas, maxChunkValues < deltas →
      ∃ bytes, (run (empty deltas ⟨.stored, 6⟩) .empty (List.replicate (deltas + 1) (.add []))).1.resolve = .ok bytes ∧
        (run (empty deltas ⟨.stored, 6⟩) .empty (List.replicate (deltas + 1) (.add []))).1.info = ⟨deltas + 1, 0⟩ ∧
        ∀ source : Source, source.Holds bytes → ¬ ∃ c, (∀ n, nthNext (ofSource source) n = [Except.ok c][n]?) ∧
          c.length = deltas + 1 ∧ c.series.length = 0 from h 16777217 (by decide)
  intro deltas hmany
  have hempty : (empty deltas ⟨.stored, 6⟩).Holds [] := .empty deltas ⟨.stored, 6⟩
  have hledger : (run (empty deltas ⟨.stored, 6⟩) .empty (List.replicate (deltas + 1) (.add []))).2 =
      ⟨List.replicate (deltas + 1) [], none⟩ := by
    have haccepted := hempty.accepted_eq (List.replicate (deltas + 1) []) (by simp [empty])
      (fun d hd e he => by rw [List.eq_of_mem_replicate hd, List.eq_of_mem_replicate he]) none
    rwa [List.map_replicate] at haccepted
  have hfills := (tracks_fills ⟨.stored, 6⟩).run (l := Ledger.empty) (.empty deltas ⟨.stored, 6⟩)
    (List.replicate (deltas + 1) (.add []))
  rw [hledger] at hfills
  have hne : List.replicate (deltas + 1) ([] : Document) ≠ [] := by simp
  have hpayload : (Segment.payload (List.replicate (deltas + 1) [])).length = 20 := by
    simp [List.replicate_succ, Segment.payload, chunkPayload, Document.readings, Document.size, Document.encodeBody,
      Document.encodeFields, documentHeaderSize]
  have hmetrics : Segment.metrics (List.replicate (deltas + 1) []) = 0 := rfl
  have hinfo := hfills.info_eq
  rw [List.length_replicate, hmetrics] at hinfo
  have hresolve := hfills.resolve_eq hne ⟨by rw [hpayload]; decide, by simp⟩
  refine ⟨_, hresolve, hinfo, fun source hsource hdelivered => ?_⟩
  obtain ⟨-, hiff⟩ := read_back_iff deltas ⟨.stored, 6⟩ (List.replicate (deltas + 1) (.add [])) _ hresolve
  simp only [hledger, hinfo] at hiff
  have hlimits := (hiff _ (Compression.deflates _ _) source hsource).mp hdelivered
  have hcount := hlimits.samples_le
  rw [List.length_replicate] at hcount
  omega

end Window

end Telemetry

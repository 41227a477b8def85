import Telemetry.Proofs.Collector.RoundTrip
import Telemetry.Proofs.Except
import Telemetry.Proofs.Record

/-!
# What windows leave in a stream

A window that is resolved leaves a segment in the stream: a metadata record, if a document was set, and a chunk
record with its samples. A segment is described without the window (`Segment`), and so is what has to be true of
it for the window to resolve (`Segment.Writable`) and for a reader to accept the result (`Segment.Readable`).

Windows that are resolved one after the other leave their segments one after the other (`mapM_resolve_eq`), and
reading the stream gives their records (`Segment.readAll_bytes`), whose chunks are those of the samples
(`Window.Fills.exists_chunk`).
-/

namespace Telemetry

open Collector

/-- A chunk that was made from exactly the given samples, in order. -/
def Chunk.Holds (c : Chunk) : List Document → Prop
  | [] => False
  | first :: rest => c.Represents first rest

/-- A metadata document, if one was set, and the samples of a chunk. -/
structure Segment where
  metadata? : Option Document
  samples : List Document

namespace Segment

/-- The payload of the chunk of samples, before compression. -/
def payload : List Document → Bytes
  | [] => []
  | first :: rest => Window.chunkPayload first rest

/-- The payload in compressed form. -/
def body (z : Compression) (samples : List Document) : Bytes :=
  Bytes.ofNat Payload.lengthSize (payload samples).length ++ z.stream (payload samples)

/-- How many metrics the samples of a chunk have. -/
def metrics (samples : List Document) : Nat :=
  (samples.head?.map fun d => (Document.readings d).length).getD 0

/-- The metadata record, if there is a document. -/
def front (metadata? : Option Document) : List Record :=
  metadata?.toList.map fun d => ⟨.metadata, Document.bytes d⟩

/-- The records of a segment. -/
def records (z : Compression) (s : Segment) : List Record :=
  front s.metadata? ++ [Record.ofChunk (body z s.samples)]

/-- The bytes of a segment. -/
def bytes (z : Compression) (s : Segment) : Bytes :=
  (s.records z).flatMap Record.encode

/-- Documents and payload have lengths that fit in front of them. -/
structure Writable (s : Segment) : Prop where
  payload_lt : (payload s.samples).length < UInt32.size
  metadata_lt : ∀ d ∈ s.metadata?, Document.size d < UInt32.size

/-- The segment is within the limits of a reader. -/
structure Readable (z : Compression) (s : Segment) : Prop where
  payload_le : (payload s.samples).length ≤ maxPayloadSize
  samples_le : s.samples.length - 1 ≤ maxChunkValues
  values_le : metrics s.samples * (s.samples.length - 1) ≤ maxChunkValues
  records_le : ∀ r ∈ s.records z, r.frame.length ≤ maxRecordSize

theorem Readable.writable {z : Compression} {s : Segment} (h : s.Readable z) : s.Writable where
  payload_lt := Nat.lt_of_le_of_lt h.payload_le (by decide)
  metadata_lt := by
    intro d hd
    have hrecord : (⟨.metadata, Document.bytes d⟩ : Record) ∈ s.records z := by
      rw [Option.mem_def] at hd
      simp [records, front, hd]
    have hle := h.records_le _ hrecord
    rw [Record.length_frame, Document.length_bytes] at hle
    have hword : maxRecordSize < UInt32.size := by decide
    omega

/-- The first sample of a payload is shorter than the payload. -/
theorem size_first_lt {s : Segment} {first : Document} {rest : List Document}
    (hsamples : s.samples = first :: rest) (h : (payload s.samples).length < UInt32.size) :
    Document.size first < UInt32.size := by
  simp only [hsamples, payload, Window.chunkPayload, List.length_append, Document.length_bytes] at h
  omega

end Segment

namespace Window

/-- A window that has a body has a payload that could be compressed. -/
theorem exists_of_body {w : Window} {body : Bytes} (h : w.body = .ok body) :
    ∃ payload, w.payload = .ok payload ∧ Payload.compress w.compression payload = .ok body := by
  rw [Window.body] at h
  split at h
  next => simp at h
  next payload hpayload =>
    split at h
    next => simp at h
    next hcompress =>
      obtain rfl := Except.ok.inj h
      exact ⟨payload, hpayload, hcompress⟩

/-- A window that resolves gives its metadata record, if there is a document, and its chunk record. -/
theorem exists_of_resolve {w : Window} {bytes : Bytes} (h : w.resolve = .ok bytes) :
    ∃ body front, w.body = .ok body ∧ w.metadataBytes = .ok front ∧
      bytes = front ++ (Record.ofChunk body).encode := by
  rw [resolve] at h
  split at h
  next => simp at h
  next body hbody =>
    split at h
    next => simp at h
    next front hfront =>
      obtain rfl := Except.ok.inj h
      exact ⟨body, front, hbody, hfront, rfl⟩

/-- A window holds the samples of a segment, has its metadata document, and compresses as given. -/
structure Fills (z : Compression) (w : Window) (s : Segment) : Prop where
  holds : w.Holds s.samples
  metadata?_eq : w.metadata? = s.metadata?
  compression_eq : w.compression = z

namespace Fills

variable {z : Compression} {w : Window} {s : Segment}

theorem empty (maxDeltas : Nat) (z : Compression) : Fills z (.empty maxDeltas z) ⟨none, []⟩ :=
  ⟨.empty maxDeltas z, rfl, rfl⟩

theorem setMetadata (h : w.Fills z s) (d : Document) :
    (w.setMetadata d).Fills z ⟨some d, s.samples⟩ :=
  ⟨h.holds.setMetadata d, rfl, h.compression_eq⟩

/-- A sample that is taken is the last one held. -/
theorem added (h : w.Fills z s) {sample : Document} {w' : Window}
    (hadd : w.add sample = (.ok (), w')) : w'.Fills z ⟨s.metadata?, s.samples ++ [sample]⟩ := by
  obtain ⟨-, hcompression, hmetadata⟩ := frame_add sample w
  rw [hadd] at hcompression hmetadata
  exact ⟨h.holds.add hadd, hmetadata.trans h.metadata?_eq, hcompression.trans h.compression_eq⟩

/-- A window with samples carries the first of them and the steps to the others. -/
theorem exists_carries (h : w.Fills z s) (hne : s.samples ≠ []) :
    ∃ first rest, s.samples = first :: rest ∧ w.Carries first rest := by
  obtain ⟨first, rest, hsamples⟩ := List.exists_cons_of_ne_nil hne
  have hholds := h.holds
  rw [hsamples] at hholds
  exact ⟨first, rest, hsamples, hholds⟩

theorem info_eq (h : w.Fills z s) : w.info = ⟨s.samples.length, Segment.metrics s.samples⟩ :=
  h.holds.info_eq

/-- A window without samples has nothing to give. -/
theorem resolve_nil (h : w.Fills z s) (hnil : s.samples = []) : w.resolve = .error .noReference := by
  have hholds := h.holds
  rw [hnil] at hholds
  simp only [resolve, body, Window.payload, hholds.1]

theorem metadataBytes_eq (h : w.Fills z s) (hw : ∀ d ∈ s.metadata?, Document.size d < UInt32.size) :
    w.metadataBytes = .ok ((Segment.front s.metadata?).flatMap Record.encode) := by
  rw [metadataBytes, h.metadata?_eq]
  cases hmetadata : s.metadata? with
  | none => rfl
  | some d => simp [Record.ofMetadata, Document.encode_eq (hw d hmetadata), Segment.front]

/-- A window leaves its segment in the stream, unless a length does not fit. -/
theorem resolve_eq (h : w.Fills z s) (hne : s.samples ≠ []) (hw : s.Writable) :
    w.resolve = .ok (s.bytes z) := by
  obtain ⟨first, rest, hsamples, hcarries⟩ := h.exists_carries hne
  have hpayload : w.payload = .ok (Segment.payload s.samples) := by
    rw [hsamples]
    exact hcarries.payload_eq (Segment.size_first_lt hsamples hw.payload_lt)
  have hbody : w.body = .ok (Segment.body z s.samples) := by
    rw [body, hpayload, h.compression_eq]
    simp only [Payload.compress_eq hw.payload_lt]
    rfl
  rw [resolve, hbody]
  simp only [h.metadataBytes_eq hw.metadata_lt]
  simp [Segment.bytes, Segment.records]

/-- A window that resolves has lengths that fit. -/
theorem writable_of_resolve (h : w.Fills z s) (hne : s.samples ≠ []) {bytes : Bytes}
    (hresolve : w.resolve = .ok bytes) : s.Writable := by
  obtain ⟨first, rest, hsamples, hcarries⟩ := h.exists_carries hne
  obtain ⟨body, front, hbody, hfront, -⟩ := exists_of_resolve hresolve
  obtain ⟨payload, hpayload, hcompress⟩ := exists_of_body hbody
  have hfirst := hcarries.size_lt_of_payload hpayload
  rw [hcarries.payload_eq hfirst] at hpayload
  obtain rfl := Except.ok.inj hpayload
  refine ⟨?_, ?_⟩
  · rw [hsamples]
    exact Payload.length_lt_of_compress hcompress
  · intro d hd
    rw [Option.mem_def, ← h.metadata?_eq] at hd
    rw [metadataBytes, hd] at hfront
    simp only [Record.ofMetadata] at hfront
    cases hencode : Document.encode d with
    | error fault => simp [hencode] at hfront
    | ok bytes => exact Document.size_lt_of_encode hencode

/-- The chunk in the record of a segment is that of the samples, if it is within the limits of a reader. -/
theorem exists_chunk (h : w.Fills z s) (hne : s.samples ≠ []) (hs : s.Readable z)
    (metadata? : Option Document) :
    ∃ c, Chunk.ofBody metadata? (Segment.body z s.samples) = .ok c ∧ c.Holds s.samples := by
  have hbody : Payload.decompress (Segment.body z s.samples) = .ok (Segment.payload s.samples) :=
    Payload.decompress_compress hs.payload_le (Payload.compress_eq hs.writable.payload_lt z)
  have hsize := hs.payload_le
  have hcount := hs.samples_le
  have hvalues := hs.values_le
  obtain ⟨first, rest, hsamples, hcarries⟩ := h.exists_carries hne
  simp only [Segment.payload, Segment.metrics, hsamples, List.length_cons, Nat.add_sub_cancel,
    List.head?_cons, Option.map_some, Option.getD_some] at hbody hsize hcount hvalues ⊢
  exact Chunk.exists_ofBody_eq hcarries.types_eq hsize hcount hvalues hbody metadata?

end Fills

end Window

/-! ## Several segments -/

/-- Windows leave their segments one after the other. -/
theorem Window.mapM_resolve_eq {windows : List Window} {segments : List Segment} {z : Compression}
    (h : List.Forall₂ (Fills z) windows segments) (hne : ∀ s ∈ segments, s.samples ≠ [])
    (hw : ∀ s ∈ segments, s.Writable) :
    windows.mapM Window.resolve = .ok (segments.map (·.bytes z)) := by
  rw [mapM_eq_ok_iff, List.forall₂_map_right_iff]
  induction h with
  | nil => exact .nil
  | @cons w s windows segments hfills hmore ih =>
    exact .cons (hfills.resolve_eq (hne s (by simp)) (hw s (by simp)))
      (ih (fun s hs => hne s (by simp [hs])) fun s hs => hw s (by simp [hs]))

/-- The records of segments are read from their bytes, in order. -/
theorem Segment.readAll_bytes {segments : List Segment} {z : Compression}
    (h : ∀ s ∈ segments, s.Readable z) :
    Record.readAll (Source.ofBytes (segments.map (·.bytes z)).flatten) =
      .ok (segments.flatMap (·.records z)) := by
  apply Record.readAll_of_rest _ rfl
  · rw [← List.flatMap_def, List.flatMap_assoc]
    rfl
  · intro r hr
    obtain ⟨s, hs, hr⟩ := List.mem_flatMap.mp hr
    exact (h s hs).records_le r hr

/-! ## One document ahead of several chunks -/

/-- A metadata record with the given document. -/
def Record.IsMetadata (r : Record) (d : Document) : Prop :=
  r.kind = .metadata ∧ ∃ used, Document.decode r.body = .ok (d, used)

namespace Segment

/-- Groups of samples as segments, a metadata document ahead of the first. -/
def ofGroups (metadata? : Option Document) : List (List Document) → List Segment
  | [] => []
  | g :: groups => ⟨metadata?, g⟩ :: groups.map (Segment.mk none)

theorem samples_ofGroups (metadata? : Option Document) (groups : List (List Document)) :
    (ofGroups metadata? groups).map samples = groups := by
  cases groups <;> simp [ofGroups, Function.comp_def]

theorem ofGroups_append {metadata? : Option Document} {groups : List (List Document)} (hne : groups ≠ [])
    (more : List (List Document)) :
    ofGroups metadata? (groups ++ more) = ofGroups metadata? groups ++ more.map (Segment.mk none) := by
  obtain ⟨g, groups, rfl⟩ := List.exists_cons_of_ne_nil hne
  simp [ofGroups]

/-- The last group has the document ahead of it only if it is the first. -/
theorem ofGroups_concat (metadata? : Option Document) (groups : List (List Document)) (g : List Document) :
    ofGroups metadata? (groups ++ [g]) =
      ofGroups metadata? groups ++ [⟨if groups.isEmpty then metadata? else none, g⟩] := by
  cases groups <;> simp [ofGroups]

theorem mem_of_mem_ofGroups {metadata? : Option Document} {groups : List (List Document)} {s : Segment}
    (hs : s ∈ ofGroups metadata? groups) : s.samples ∈ groups := by
  rw [← samples_ofGroups metadata? groups]
  exact List.mem_map_of_mem hs

/-- Segments of groups can be written if the document and the payloads of the groups can. -/
theorem writable_ofGroups {metadata? : Option Document} {groups : List (List Document)}
    (hmetadata : ∀ d ∈ metadata?, Document.size d < UInt32.size)
    (hgroups : ∀ g ∈ groups, (payload g).length < UInt32.size) :
    ∀ s ∈ ofGroups metadata? groups, s.Writable := by
  intro s hs
  refine ⟨hgroups _ (mem_of_mem_ofGroups hs), ?_⟩
  cases groups with
  | nil => simp [ofGroups] at hs
  | cons g groups =>
    rcases List.mem_cons.mp hs with rfl | hs
    · exact hmetadata
    · obtain ⟨g', -, rfl⟩ := List.mem_map.mp hs
      simp

/-- Cutting the groups further leaves the document where it is, ahead of the first. -/
theorem flatMap_ofGroups {metadata? : Option Document} {groups : List (List Document)}
    {cut : List Document → List (List Document)} (hcut : ∀ g ∈ groups, cut g ≠ []) :
    (ofGroups metadata? groups).flatMap (fun s => ofGroups s.metadata? (cut s.samples)) =
      ofGroups metadata? (groups.flatMap cut) := by
  -- only the groups of the first group can have the document among them
  have hnone : ∀ groups, ofGroups none groups = groups.map (Segment.mk none) := by
    intro groups
    cases groups <;> rfl
  cases groups with
  | nil => rfl
  | cons g groups =>
    rw [ofGroups, List.flatMap_cons, List.flatMap_cons, ofGroups_append (hcut g (by simp)), List.flatMap_map,
      List.map_flatMap]
    simp only [hnone]

/-- Each segment has its holder. -/
theorem exists_holder {α : Type} {R : α → Segment → Prop} {holders : List α} {segments : List Segment}
    (h : List.Forall₂ R holders segments) {s : Segment} (hs : s ∈ segments) : ∃ a ∈ holders, R a s := by
  induction h with
  | nil => simp at hs
  | @cons a s' holders segments ha hmore ih =>
    rcases List.mem_cons.mp hs with rfl | hs
    · exact ⟨a, List.mem_cons_self, ha⟩
    · obtain ⟨a', ha', hR⟩ := ih hs
      exact ⟨a', List.mem_cons_of_mem _ ha', hR⟩

section Holders

variable {α : Type} {R : α → Segment → Prop} {holders : Array α} {metadata? : Option Document}
  {groups : List (List Document)}

/-- There are as many holders of groups as there are groups. -/
theorem isEmpty_holders (h : List.Forall₂ R holders.toList (ofGroups metadata? groups)) :
    holders.isEmpty = groups.isEmpty := by
  have hlen := h.length_eq
  rw [← List.length_map samples, samples_ofGroups, Array.length_toList] at hlen
  rw [Array.isEmpty, hlen]
  cases groups <;> simp

/-- A document is put ahead of the first group by its holder. -/
theorem modify_holders (h : List.Forall₂ R holders.toList (ofGroups metadata? groups)) {set : α → α}
    {d : Document} (hset : ∀ a s, R a s → R (set a) ⟨some d, s.samples⟩) :
    List.Forall₂ R (holders.modify 0 set).toList (ofGroups (some d) groups) := by
  rw [Array.toList_modify]
  cases groups with
  | nil =>
    rw [List.forall₂_nil_right_iff.mp h]
    exact .nil
  | cons g groups =>
    obtain ⟨a, more, ha, hmore, heq⟩ := List.forall₂_cons_right_iff.mp h
    rw [heq, List.modify_zero_cons]
    exact .cons (hset a _ ha) hmore

end Holders

/-- The metadata record comes first, and then there are only chunk records. -/
theorem flatMap_records_ofGroups {groups : List (List Document)} (hne : groups ≠ []) (z : Compression)
    (metadata? : Option Document) :
    (ofGroups metadata? groups).flatMap (·.records z) =
      front metadata? ++ (groups.map (body z)).map Record.ofChunk := by
  obtain ⟨g, groups, rfl⟩ := List.exists_cons_of_ne_nil hne
  have hmore : (groups.map (Segment.mk none)).flatMap (·.records z) =
      (groups.map (body z)).map Record.ofChunk := by
    rw [List.flatMap_map, List.map_map, ← List.flatMap_pure_eq_map]
    rfl
  rw [ofGroups, List.flatMap_cons, hmore, records, List.append_assoc]
  rfl

/-- The metadata record holds the document. -/
theorem front_isMetadata {metadata? : Option Document} (h : ∀ d ∈ metadata?, Document.size d < UInt32.size) :
    List.Forall₂ Record.IsMetadata (front metadata?) metadata?.toList := by
  rw [front, List.forall₂_map_left_iff, List.forall₂_same]
  intro d hd
  have hdecode := Document.decode_bytes (h d (by simpa using hd)) []
  rw [List.append_nil] at hdecode
  exact ⟨rfl, _, hdecode⟩

end Segment

/-- Bytes from which a reader gets the metadata document, if there is one, and then chunks of the given groups of
samples, and nothing else. -/
def Reads (bytes : Bytes) (metadata? : Option Document) (groups : List (List Document))
    (chunks : List Chunk) : Prop :=
  ∃ (fronts : List Record) (bodies : List Bytes),
    Record.readAll (Source.ofBytes bytes) = .ok (fronts ++ bodies.map Record.ofChunk) ∧
    List.Forall₂ Record.IsMetadata fronts metadata?.toList ∧
    bodies.mapM (Chunk.ofBody metadata?) = .ok chunks ∧
    List.Forall₂ Chunk.Holds chunks groups

/-- What windows with groups of samples leave in a stream is read as chunks of these groups. -/
theorem Window.exists_reads {windows : List Window} {metadata? : Option Document}
    {groups : List (List Document)} {z : Compression}
    (h : List.Forall₂ (Fills z) windows (Segment.ofGroups metadata? groups)) (hgroups : groups ≠ [])
    (hne : ∀ g ∈ groups, g ≠ [])
    (hs : ∀ s ∈ Segment.ofGroups metadata? groups, s.Readable z) :
    ∃ chunks, Reads ((Segment.ofGroups metadata? groups).map (·.bytes z)).flatten metadata? groups chunks := by
  have hchunks : ∃ chunks, List.Forall₂ (fun s c => Chunk.ofBody metadata? (Segment.body z s.samples) = .ok c ∧
      c.Holds s.samples) (Segment.ofGroups metadata? groups) chunks := by
    have hne' : ∀ s ∈ Segment.ofGroups metadata? groups, s.samples ≠ [] := fun s hs =>
      hne _ (Segment.mem_of_mem_ofGroups hs)
    generalize Segment.ofGroups metadata? groups = segments at h hs hne'
    induction h with
    | nil => exact ⟨[], .nil⟩
    | @cons w s windows segments hfills hmore ih =>
      obtain ⟨c, hc⟩ := hfills.exists_chunk (hne' s (by simp)) (hs s (by simp)) metadata?
      obtain ⟨chunks, hchunks⟩ := ih (fun s' hs' => hs s' (by simp [hs'])) fun s' hs' => hne' s' (by simp [hs'])
      exact ⟨c :: chunks, .cons hc hchunks⟩
  obtain ⟨chunks, hchunks⟩ := hchunks
  refine ⟨chunks, Segment.front metadata?, groups.map (Segment.body z), ?_, ?_, ?_, ?_⟩
  · rw [Segment.readAll_bytes hs, Segment.flatMap_records_ofGroups hgroups]
  · obtain ⟨g, more, rfl⟩ := List.exists_cons_of_ne_nil hgroups
    exact Segment.front_isMetadata (hs ⟨metadata?, g⟩ (by simp [Segment.ofGroups])).writable.metadata_lt
  · rw [mapM_eq_ok_iff, List.forall₂_map_left_iff, ← Segment.samples_ofGroups metadata? groups,
      List.forall₂_map_left_iff]
    exact hchunks.imp fun s c hc => hc.1
  · rw [← Segment.samples_ofGroups metadata? groups, List.forall₂_map_right_iff]
    exact (hchunks.imp fun s c hc => hc.2).flip

end Telemetry

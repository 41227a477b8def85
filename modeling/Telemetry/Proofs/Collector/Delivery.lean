import Telemetry.Proofs.Collector.Streaming
import Telemetry.Zlib.Stored

/-!
# Every sample reaches the sink once

A streaming collector is asked to take samples and metadata, to flush, to give back what it holds and to say how
much that is, in any order, and its sink may refuse any of the calls made to it (`Writer.Request`). What can be
known from outside is which samples were taken, what has arrived in the sink, and which document was set in the
meantime (`Deliveries`).

Whatever was refused, the samples taken are those of the chunks in the sink followed by those of the open window
(`Streaming.Delivers`). A write that is refused changes neither side, and a write that succeeds moves the window
to the sink as a whole; so every request preserves it, and `Writer.delivers_once` says what it comes to.
-/

namespace Telemetry

open Collector

/-! ## Requests and what is known -/

/-- A collector in front of a sink, with an open window in it. A flush writes that window, if it holds samples, and
flushes the sink. -/
class Writer (σ : Type) extends Collector σ where
  flush : σ → Except Error Unit × σ
  inner : σ → Streaming

instance : Writer Streaming where
  flush := Streaming.flush
  inner := id

instance : Writer AdaptiveStreaming where
  flush := AdaptiveStreaming.flush
  inner := AdaptiveStreaming.inner

/-- What is known about a collector in front of a sink: the samples that were taken, the metadata document that was
last set since a chunk was last written, and for each chunk that was written the document pending until then. -/
structure Deliveries where
  accepted : List Document
  pending? : Option Document
  fronts : List (Option Document)

namespace Deliveries

/-- Nothing. -/
def empty : Deliveries :=
  ⟨[], none, []⟩

/-- Something has been written if the sink has other contents than before, and nothing is pending then. -/
def wrote (before after : Bytes) (l : Deliveries) : Deliveries :=
  if after = before then l else { l with fronts := l.fronts ++ [l.pending?], pending? := none }

/-- A sample has been taken or refused. -/
def took (sample : Document) (result : Except Error Unit) (l : Deliveries) : Deliveries :=
  match result with
  | .ok () => { l with accepted := l.accepted ++ [sample] }
  | .error _ => l

@[simp] theorem wrote_self (contents : Bytes) (l : Deliveries) : l.wrote contents contents = l :=
  if_pos rfl

theorem wrote_of_ne {before after : Bytes} (h : after ≠ before) (l : Deliveries) :
    l.wrote before after = { l with fronts := l.fronts ++ [l.pending?], pending? := none } :=
  if_neg h

end Deliveries

namespace Writer

/-- What a collector in front of a sink can be asked. -/
inductive Request where
  | add (sample : Document)
  | setMetadata (d : Document)
  | resolve
  | info
  | flush

variable {σ : Type} [Writer σ]

/-- What the sink has taken. -/
def contents (c : σ) : Bytes :=
  (inner c).sink.contents

/-- The collector after a request. -/
def serve (c : σ) : Request → σ
  | .add sample => (Collector.add sample c).2
  | .setMetadata d => Collector.setMetadata d c
  | .resolve => (Collector.resolve c).2
  | .info => c
  | .flush => (Writer.flush c).2

/-- What is known after a request. -/
def note (c : σ) (l : Deliveries) (r : Request) : Deliveries :=
  let l := l.wrote (contents c) (contents (serve c r))
  match r with
  | .add sample => l.took sample (Collector.add sample c).1
  | .setMetadata d => { l with pending? := some d }
  | _ => l

/-- The collector and what is known, after requests, one after the other. -/
def run (c : σ) (l : Deliveries) : List Request → σ × Deliveries
  | [] => (c, l)
  | r :: requests => run (serve c r) (note c l r) requests

end Writer

/-! ## What the sink has, and what is left -/

/-- A window that resolves leaves something in the stream. -/
theorem Window.resolve_ne_nil {w : Window} {bytes : Bytes} (h : w.resolve = .ok bytes) : bytes ≠ [] := by
  obtain ⟨body, front, -, -, rfl⟩ := exists_of_resolve h
  simp [Record.encode, Record.frame, Record.content]

namespace Streaming

/-- No chunk is without bytes, so the sink shows that one has been written. -/
theorem contents_afterWrite_ne {s : Streaming} {bytes : Bytes} (hbytes : s.current.resolve = .ok bytes) :
    (s.afterWrite bytes).sink.contents ≠ s.sink.contents := by
  rw [afterWrite, ne_eq, List.append_right_eq_self]
  exact Window.resolve_ne_nil hbytes

/-- The samples taken are in segments in the sink and in the open window, and so are the documents.

The sink has the segments and nothing else, and their chunks are counted. In front of a chunk is the document that was
pending, if one was; the open window holds the document that is. -/
structure Balances (z : Compression) (s : Streaming) (l : Deliveries) (segments : List Segment)
    (rest : List Document) : Prop where
  accepted_eq : segments.flatMap Segment.samples ++ rest = l.accepted
  fronts_eq : segments.map Segment.metadata? = l.fronts
  contents_eq : s.sink.contents = (segments.map (·.bytes z)).flatten
  chunksWritten_eq : s.chunksWritten = segments.length
  rest_fills : s.current.Fills z ⟨l.pending?, rest⟩

/-- Windows for a fixed number of samples have gone to the sink, every segment from a window with samples, and one of
them is open, with room for as many. -/
structure Delivers (k : Nat) (z : Compression) (s : Streaming) (l : Deliveries) (segments : List Segment)
    (rest : List Document) : Prop extends s.Balances z l segments rest where
  maxSamples_eq : s.maxSamples = k
  room_eq : s.current.maxDeltas + 1 = k
  segments_fill : ∀ segment ∈ segments, segment.samples ≠ [] ∧ segment.samples.length ≤ k ∧
    ∃ w, Window.Fills z w segment

/-- Some segments are in the sink and some samples are left. -/
def Delivered (k : Nat) (z : Compression) (s : Streaming) (l : Deliveries) : Prop :=
  ∃ segments rest, s.Delivers k z l segments rest

namespace Delivers

variable {k : Nat} {z : Compression} {s : Streaming} {l : Deliveries} {segments : List Segment} {rest : List Document}

theorem length_rest_le (h : s.Delivers k z l segments rest) : rest.length ≤ k := by
  have hlen := h.rest_fills.holds.length_le
  rw [h.room_eq] at hlen
  exact hlen

/-- Nothing else about the sink matters than what it has taken. -/
theorem setSink (h : s.Delivers k z l segments rest) {sink : Sink}
    (hcontents : sink.contents = s.sink.contents) : { s with sink }.Delivers k z l segments rest :=
  { h with contents_eq := hcontents.trans h.contents_eq }

/-- A sample that is taken is left in the open window. -/
theorem taken (h : s.Delivers k z l segments rest) {sample : Document} {w : Window}
    (hadd : s.current.add sample = (.ok (), w)) :
    { s with current := w }.Delivers k z (l.took sample (.ok ())) segments (rest ++ [sample]) := by
  have hdeltas := (Window.frame_add sample s.current).1
  rw [hadd] at hdeltas
  exact { h with
    accepted_eq := by rw [← List.append_assoc, h.accepted_eq]; rfl
    rest_fills := h.rest_fills.added hadd
    room_eq := by rw [← h.room_eq, ← hdeltas] }

/-- The document is left with the open window. -/
theorem setMetadata (h : s.Delivers k z l segments rest) (d : Document) :
    (s.setMetadata d).Delivers k z { l with pending? := some d } segments rest :=
  { h with rest_fills := h.rest_fills.setMetadata d }

/-- A window that is written takes its samples and its document to the sink. -/
theorem written (h : s.Delivers k z l segments rest) (hsamples : s.current.info.samples ≠ 0)
    {bytes : Bytes} (hbytes : s.current.resolve = .ok bytes) :
    (s.afterWrite bytes).Delivers k z (l.wrote s.sink.contents (s.afterWrite bytes).sink.contents)
      (segments ++ [Segment.mk l.pending? rest]) [] := by
  rw [Deliveries.wrote_of_ne (contents_afterWrite_ne hbytes)]
  have hrest : rest ≠ [] := by
    rintro rfl
    exact hsamples h.rest_fills.holds.samples_info
  have hw := h.rest_fills.writable_of_resolve hrest hbytes
  rw [h.rest_fills.resolve_eq hrest hw] at hbytes
  obtain rfl := Except.ok.inj hbytes
  exact {
    accepted_eq := by simp [h.accepted_eq]
    fronts_eq := by simp [h.fronts_eq]
    contents_eq := by simp [afterWrite, h.contents_eq]
    chunksWritten_eq := by simp [afterWrite, h.chunksWritten_eq]
    rest_fills := h.rest_fills.compression_eq ▸ .empty _ _
    maxSamples_eq := h.maxSamples_eq
    room_eq := h.room_eq
    segments_fill := by
      intro segment hsegment
      rcases List.mem_append.mp hsegment with hsegment | hsegment
      · exact h.segments_fill segment hsegment
      · rw [List.mem_singleton.mp hsegment]
        exact ⟨hrest, h.length_rest_le, s.current, h.rest_fills⟩ }

end Delivers

/-! ## Requests by number of samples -/

namespace Delivered

variable {k : Nat} {z : Compression} {s : Streaming} {l : Deliveries}

/-- Writing the open window moves it to the sink as a whole, or leaves everything as it was. -/
theorem writeChunk (h : s.Delivered k z l) :
    s.writeChunk.2.Delivered k z (l.wrote s.sink.contents s.writeChunk.2.sink.contents) := by
  obtain ⟨segments, rest, hdelivers⟩ := h
  rcases s.writeChunk_cases with ⟨-, heq⟩ | ⟨hsamples, bytes, hbytes, -, heq⟩ | ⟨-, e, sink, heq, hcontents, -⟩
  · rw [heq, Deliveries.wrote_self]
    exact ⟨segments, rest, hdelivers⟩
  · rw [heq]
    exact ⟨_, _, hdelivers.written hsamples hbytes⟩
  · rw [heq, hcontents, Deliveries.wrote_self]
    exact ⟨segments, rest, hdelivers.setSink hcontents⟩

/-- A sample is taken after a full window has been written, and refused if the window could not be written. -/
theorem add (h : s.Delivered k z l) (sample : Document) :
    (s.add sample).2.Delivered k z
      ((l.wrote s.sink.contents (s.add sample).2.sink.contents).took sample (s.add sample).1) := by
  obtain ⟨segments, rest, hdelivers⟩ := h
  have htakes := s.takes sample
  generalize s.add sample = outcome at htakes ⊢
  obtain ⟨result, t⟩ := outcome
  cases htakes with
  | refused e sink hcontents =>
    dsimp only
    rw [hcontents, Deliveries.wrote_self]
    exact ⟨segments, rest, hdelivers.setSink hcontents⟩
  | here w hadd =>
    dsimp only
    rw [Deliveries.wrote_self]
    exact ⟨_, _, hdelivers.taken hadd⟩
  | behind bytes w hsamples hbytes hadd => exact ⟨_, _, (hdelivers.written hsamples hbytes).taken hadd⟩

/-- A flush writes the open window, and the sink itself takes nothing more. -/
theorem flush (h : s.Delivered k z l) :
    s.flush.2.Delivered k z (l.wrote s.sink.contents s.flush.2.sink.contents) := by
  have hwritten := h.writeChunk
  cases hwrite : s.writeChunk with
  | mk result t =>
    rw [hwrite] at hwritten
    cases result with
    | error e =>
      rw [flush_of_refused hwrite]
      exact hwritten
    | ok _ =>
      obtain ⟨segments, rest, hdelivers⟩ := hwritten
      rw [flush_of_written hwrite, Sink.contents_flush]
      exact ⟨segments, rest, hdelivers.setSink (Sink.contents_flush t.sink)⟩

/-- Every request leaves each sample taken where it belongs. -/
theorem serve (h : s.Delivered k z l) (r : Writer.Request) :
    (Writer.serve s r).Delivered k z (Writer.note s l r) := by
  cases r with
  | add sample => exact h.add sample
  | setMetadata d =>
    obtain ⟨segments, rest, hdelivers⟩ := h
    have hnote : Writer.note s l (.setMetadata d) = { l with pending? := some d } := by
      show { l.wrote s.sink.contents s.sink.contents with pending? := some d } = _
      rw [Deliveries.wrote_self]
    rw [hnote]
    exact ⟨segments, rest, hdelivers.setMetadata d⟩
  | resolve =>
    show s.Delivered k z (l.wrote s.sink.contents s.sink.contents)
    rw [Deliveries.wrote_self]
    exact h
  | info =>
    show s.Delivered k z (l.wrote s.sink.contents s.sink.contents)
    rw [Deliveries.wrote_self]
    exact h
  | flush => exact h.flush

end Delivered

end Streaming

namespace AdaptiveStreaming

/-! ## Requests also by schema -/

variable {k : Nat} {z : Compression} {s : AdaptiveStreaming} {l : Deliveries}

/-- A sample is taken after a window of another schema, or a full one, has been written. -/
theorem delivered_add (h : s.inner.Delivered k z l) (sample : Document) :
    (s.add sample).2.inner.Delivered k z
      ((l.wrote s.inner.sink.contents (s.add sample).2.inner.sink.contents).took sample (s.add sample).1) := by
  obtain ⟨segments, rest, hdelivers⟩ := h
  have htakes := s.takes sample
  generalize s.add sample = outcome at htakes ⊢
  obtain ⟨result, t⟩ := outcome
  cases htakes with
  | refused e sink hcontents =>
    dsimp only
    rw [hcontents, Deliveries.wrote_self]
    exact ⟨segments, rest, hdelivers.setSink hcontents⟩
  | here w hadd =>
    dsimp only
    rw [Deliveries.wrote_self]
    exact ⟨_, _, hdelivers.taken hadd⟩
  | behind bytes w hsamples hbytes hadd => exact ⟨_, _, (hdelivers.written hsamples hbytes).taken hadd⟩

/-- Every request leaves each sample taken where it belongs. -/
theorem delivered_serve (h : s.inner.Delivered k z l) (r : Writer.Request) :
    (Writer.serve s r).inner.Delivered k z (Writer.note s l r) := by
  cases r with
  | add sample => exact delivered_add h sample
  | setMetadata d => exact h.serve (.setMetadata d)
  | resolve => exact h.serve .resolve
  | info => exact h.serve .info
  | flush => exact h.flush

end AdaptiveStreaming

/-! ## Reading the sink -/

/-- Records from which a reader gets the document of a segment, if there is one, and then the chunk of its
samples. -/
def Segment.IsReadFrom (s : Segment) (records : List Record) : Prop :=
  ∃ (front : List Record) (body : Bytes), records = front ++ [Record.ofChunk body] ∧
    List.Forall₂ Record.IsMetadata front s.metadata?.toList ∧
    ∀ metadata?, ∃ c, Chunk.ofBody metadata? body = .ok c ∧ c.Holds s.samples

/-- One of them is a chunk record. -/
theorem Segment.IsReadFrom.countP_eq {s : Segment} {records : List Record} (h : s.IsReadFrom records) :
    records.countP (fun r => r.kind = .chunk) = 1 := by
  obtain ⟨front, body, rfl, hfront, -⟩ := h
  have hnone : front.countP (fun r => r.kind = .chunk) = 0 := by
    generalize s.metadata?.toList = documents at hfront
    induction hfront with
    | nil => rfl
    | cons hr hmore ih => rw [List.countP_cons_of_neg (by simp [hr.1]), ih]
  rw [List.countP_append, hnone]
  rfl

/-- The records of a segment are such records, if it is within the limits of a reader. -/
theorem Window.Fills.isReadFrom {z : Compression} {w : Window} {s : Segment} (h : w.Fills z s)
    (hne : s.samples ≠ []) (hs : s.Readable z) : s.IsReadFrom (s.records z) :=
  ⟨Segment.front s.metadata?, Segment.body z s.samples, rfl,
    Segment.front_isMetadata hs.writable.metadata_lt, h.exists_chunk hne hs⟩

/-- A reader gets the segments in the sink, one after the other, if each is within its limits. -/
theorem Streaming.Delivers.exists_read {k : Nat} {z : Compression} {s : Streaming} {l : Deliveries}
    {segments : List Segment} {rest : List Document} (h : s.Delivers k z l segments rest)
    (hreadable : ∀ segment ∈ segments, segment.Readable z) :
    ∃ parts, Record.readAll (Source.ofBytes s.sink.contents) = .ok parts.flatten ∧
      List.Forall₂ Segment.IsReadFrom segments parts ∧
      parts.flatten.countP (fun r => r.kind = .chunk) = s.chunksWritten := by
  have hparts : List.Forall₂ Segment.IsReadFrom segments (segments.map (·.records z)) := by
    rw [List.forall₂_map_right_iff, List.forall₂_same]
    intro segment hsegment
    obtain ⟨hne, -, w, hfills⟩ := h.segments_fill segment hsegment
    exact hfills.isReadFrom hne (hreadable segment hsegment)
  refine ⟨segments.map (·.records z), ?_, hparts, ?_⟩
  · rw [h.contents_eq, Segment.readAll_bytes hreadable, List.flatMap_def]
  · rw [h.chunksWritten_eq]
    generalize segments.map (·.records z) = parts at hparts
    clear h hreadable
    induction hparts with
    | nil => rfl
    | cons hpart hmore ih =>
      rw [List.flatten_cons, List.countP_append, hpart.countP_eq, ih, List.length_cons, Nat.add_comm]

/-! ## After any requests -/

theorem Writer.run_delivered {σ : Type} [Writer σ] {k : Nat} {z : Compression}
    (hserve : ∀ {c : σ} {l : Deliveries}, (inner c).Delivered k z l → ∀ r,
      (inner (serve c r)).Delivered k z (note c l r))
    {c : σ} {l : Deliveries} (h : (inner c).Delivered k z l) (requests : List Request) :
    (inner (run c l requests).1).Delivered k z (run c l requests).2 := by
  induction requests generalizing c l with
  | nil => exact h
  | cons r requests ih =>
    rw [run]
    exact ih (hserve h r)

/-- What is known of a collector in front of a sink is borne out by the sink and the open window. Neither the open
window nor a chunk in the sink holds too many samples, and no chunk is empty.

What a reader gets from the sink are the segments: for each one its document, if there is one, and its chunk. There
are as many chunk records as have been counted. A flush sends what is left, whatever has been refused before, unless
it is refused again or a length does not fit. -/
structure Writer.DeliversOnce {σ : Type} [Writer σ] (k : Nat) (z : Compression) (c : σ) (l : Deliveries)
    (segments : List Segment) (rest : List Document) : Prop extends
    (inner c).Balances z l segments rest where
  rest_le : rest.length ≤ k
  segments_le : ∀ segment ∈ segments, segment.samples ≠ [] ∧ segment.samples.length ≤ k
  read : (∀ segment ∈ segments, segment.Readable z) →
    ∃ parts, Record.readAll (Source.ofBytes (contents c)) = .ok parts.flatten ∧
      List.Forall₂ Segment.IsReadFrom segments parts ∧
      parts.flatten.countP (fun r => r.kind = .chunk) = (inner c).chunksWritten
  retry : rest ≠ [] → (Segment.mk l.pending? rest).Writable →
    (inner c).sink.refusesWrite (inner c).sink.writes = false →
    contents (Writer.flush c).2 = contents c ++ (Segment.mk l.pending? rest).bytes z ∧
      (inner (Writer.flush c).2).current.info.samples = 0

/-- The open window is written if the sink takes it and no length is too great. -/
theorem Streaming.Delivers.flush_eq {k : Nat} {z : Compression} {s : Streaming} {l : Deliveries} {segments : List Segment}
    {rest : List Document} (h : s.Delivers k z l segments rest) (hne : rest ≠ [])
    (hw : (Segment.mk l.pending? rest).Writable) (htakes : s.sink.refusesWrite s.sink.writes = false) :
    s.flush.2.sink.contents = s.sink.contents ++ (Segment.mk l.pending? rest).bytes z ∧
      s.flush.2.current.info.samples = 0 := by
  have hresolve := h.rest_fills.resolve_eq hne hw
  have hsamples := h.rest_fills.holds.samples_info
  rcases s.writeChunk_cases with ⟨hnone, -⟩ | ⟨-, bytes, hbytes, -, heq⟩ | ⟨-, e, sink, -, -, hfailed⟩
  · rw [hsamples, List.length_eq_zero_iff] at hnone
    exact absurd hnone hne
  · rw [hresolve] at hbytes
    obtain rfl := Except.ok.inj hbytes
    rw [flush_of_written heq]
    exact ⟨Sink.contents_flush _, rfl⟩
  · rcases hfailed with ⟨e', hresolve'⟩ | hrefuses
    · simp [hresolve] at hresolve'
    · simp [htakes] at hrefuses

theorem Streaming.Delivered.once {σ : Type} [Writer σ] {k : Nat} {z : Compression} {c : σ} {l : Deliveries}
    (h : (Writer.inner c).Delivered k z l)
    (hflush : Writer.inner (Writer.flush c).2 = (Writer.inner c).flush.2) :
    ∃ segments rest, Writer.DeliversOnce k z c l segments rest := by
  obtain ⟨segments, rest, hdelivers⟩ := h
  refine ⟨segments, rest, ?_⟩
  exact { hdelivers with
    rest_le := hdelivers.length_rest_le
    segments_le := fun segment hsegment =>
      ⟨(hdelivers.segments_fill segment hsegment).1, (hdelivers.segments_fill segment hsegment).2.1⟩
    read := hdelivers.exists_read
    retry := by
      intro hne hw htakes
      rw [Writer.contents, hflush]
      exact hdelivers.flush_eq hne hw htakes }

theorem Streaming.delivers_empty (maxSamples : Nat) (z : Compression) {sink : Sink} (h : sink.contents = []) :
    (Streaming.empty maxSamples z sink).Delivers (max maxSamples 1) z .empty [] [] where
  accepted_eq := rfl
  fronts_eq := rfl
  contents_eq := h
  chunksWritten_eq := rfl
  rest_fills := .empty _ _
  maxSamples_eq := rfl
  room_eq := by
    simp only [Streaming.empty, Window.empty]
    omega
  segments_fill := by simp

theorem Streaming.delivered_empty (maxSamples : Nat) (z : Compression) {sink : Sink} (h : sink.contents = []) :
    (Streaming.empty maxSamples z sink).Delivered (max maxSamples 1) z .empty :=
  ⟨[], [], Streaming.delivers_empty maxSamples z h⟩

/-- Whichever calls the sink refuses, after any requests the samples that a streaming collector took are those of
the chunks in the sink, followed by those of its open window, each once and in order. Nothing else is in the sink
but the document that was last set before a chunk was written and after the chunk before it, if one was. -/
theorem Writer.delivers_once (maxSamples : Nat) (z : Compression) (refusesWrite refusesFlush : Nat → Bool) :
    (∀ requests, ∃ segments rest,
      DeliversOnce (max maxSamples 1) z
        (run (Streaming.empty maxSamples z (.refusing refusesWrite refusesFlush)) .empty requests).1
        (run (Streaming.empty maxSamples z (.refusing refusesWrite refusesFlush)) .empty requests).2
        segments rest) ∧
    ∀ requests, ∃ segments rest,
      DeliversOnce (max maxSamples 1) z
        (run (AdaptiveStreaming.empty maxSamples z (.refusing refusesWrite refusesFlush)) .empty requests).1
        (run (AdaptiveStreaming.empty maxSamples z (.refusing refusesWrite refusesFlush)) .empty requests).2
        segments rest := by
  have hnothing : (Sink.refusing refusesWrite refusesFlush).contents = [] := rfl
  have hempty := Streaming.delivered_empty maxSamples z hnothing
  refine ⟨?_, ?_⟩
  · intro requests
    have hdelivered := run_delivered (c := Streaming.empty maxSamples z (.refusing refusesWrite refusesFlush))
      Streaming.Delivered.serve hempty requests
    exact hdelivered.once rfl
  · intro requests
    have hdelivered := run_delivered
      (c := AdaptiveStreaming.empty maxSamples z (.refusing refusesWrite refusesFlush))
      AdaptiveStreaming.delivered_serve hempty requests
    exact hdelivered.once rfl

/-- A sink that refuses the first write leaves a window with room for one sample full, and the sample after it is
refused. The second write succeeds: the first sample is then in the sink, with its document, and the third one is
left. -/
theorem Writer.delivers_once_refused :
    ∃ segments rest, DeliversOnce 1 ⟨.stored, 6⟩
      (run (Streaming.empty 1 ⟨.stored, 6⟩ (.refusing (fun n => n == 0) fun _ => false)) .empty
        [.setMetadata [("h", .null)], .add [("x", .int32 1)], .add [("x", .int32 2)], .add [("x", .int32 3)]]).1
      ⟨[[("x", .int32 1)], [("x", .int32 3)]], none, [some [("h", .null)]]⟩ segments rest := by
  have hknown : (run (Streaming.empty 1 ⟨.stored, 6⟩ (.refusing (fun n => n == 0) fun _ => false)) .empty
      [.setMetadata [("h", .null)], .add [("x", .int32 1)], .add [("x", .int32 2)],
        .add [("x", .int32 3)]]).2 =
      ⟨[[("x", .int32 1)], [("x", .int32 3)]], none, [some [("h", .null)]]⟩ := by
    rfl
  have honce := (Writer.delivers_once 1 ⟨.stored, 6⟩ (fun n => n == 0) fun _ => false).1
    [.setMetadata [("h", .null)], .add [("x", .int32 1)], .add [("x", .int32 2)], .add [("x", .int32 3)]]
  rw [hknown] at honce
  exact honce

end Telemetry

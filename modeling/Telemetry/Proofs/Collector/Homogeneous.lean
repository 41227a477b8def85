import Telemetry.Proofs.Chunk.Shapes
import Telemetry.Proofs.Collector.Chunking
import Telemetry.Proofs.Collector.Delivery
import Telemetry.Proofs.Fingerprint
import Telemetry.Zlib.Stored

/-!
# The samples of one chunk have one schema

An adaptive collector puts samples into one chunk only if they have one fingerprint, and the window only if their
readings have the same types. So samples of one chunk have the same schema, as far as the bytes behind a fingerprint
tell, unless the digests of two samples offered to the collector collide (`Crc32.Separates`). Where the keys are
ordinary, each sample comes back from the chunk under its own keys (`Homogeneous`).

The bytes are those of dotted keys. A key `a.b` and a key `b` in a document under `a` have the same, so samples of one
chunk need not have the same paths (`Collector.homogeneous_dotted_keys`). A zero byte ends a key, so that keys with zero
bytes in them can be cut in two ways (`Collector.homogeneous_zero_bytes`).

## Shape of the proof

For the collector in memory the groups of `Collector.gives_chunks` have one fingerprint each. In front of a sink,
chunks are told from outside by a ledger of its own, since a collector that begins again forgets its open window but
not what it has written (`Shelf`). Every call preserves that each chunk on the shelf has one fingerprint
(`AdaptiveStreaming.Shelves`); the fingerprint that the collector remembers is that of the samples in the open window.
-/

namespace Telemetry

open Collector

/-! ## Chunks of samples with one schema -/

/-- Samples of one chunk that have one schema, as far as the bytes of their keys tell: they have fields of the same
types, and the same bytes behind their fingerprints.

They have the same dotted keys if no segment has a zero byte, and the same paths if none has a dot either. From a
chunk of them each is restored under the keys, or at the places, that it has itself. -/
structure Homogeneous (samples : List Document) : Prop where
  sameSchema : ∀ d ∈ samples, ∀ e ∈ samples, d.SameSchema e
  keyedTypes_eq : ∀ d ∈ samples, ∀ e ∈ samples, d.NoSegmentHas nul → e.NoSegmentHas nul →
    d.keyedTypes = e.keyedTypes
  places_eq : ∀ d ∈ samples, ∀ e ∈ samples, d.NoSegmentHas nul ∧ d.NoSegmentHas '.' →
    e.NoSegmentHas nul ∧ e.NoSegmentHas '.' → d.places = e.places
  restored : ∀ {metadata? : Option Document} {body : Bytes} {c : Chunk}, Chunk.ofBody metadata? body = .ok c →
    c.Holds samples → ∀ {i : Nat} {d : Document}, samples[i]? = some d →
      ∃ r, c.structured i = .ok r ∧
        c.flattened i = .ok ((Document.metricFields r).map fun f => (f.key, f.value)) ∧
        ((∀ e ∈ samples, e.NoSegmentHas nul) → r.keyedTypes = d.keyedTypes) ∧
        ((∀ e ∈ samples, e.NoSegmentHas nul ∧ e.NoSegmentHas '.') → r.places = d.places)

/-- A chunk of samples begins with the first of them. -/
theorem Chunk.Holds.reference_eq {c : Chunk} {samples : List Document} (h : c.Holds samples) :
    samples.head? = some c.reference := by
  cases samples with
  | nil => exact h.elim
  | cons first rest => exact congrArg some (Chunk.Represents.reference_eq h).symm

/-- A restored sample has the places of the reference. -/
theorem Chunk.InStep.exists_places_eq {c : Chunk} (h : c.InStep) {i : Nat} (hi : i < c.length) :
    ∃ r, c.structured i = .ok r ∧ r.places = c.reference.places := by
  obtain ⟨r, hr, houtline, -⟩ := h.exists_structured_eq hi
  refine ⟨r, hr, ?_⟩
  rw [Document.places, ← Document.places_outline, houtline, Document.places_outline]
  rfl

namespace Homogeneous

/-- It is enough that no two samples differ in their schema. -/
theorem of_sameSchema {samples : List Document} (h : ∀ d ∈ samples, ∀ e ∈ samples, d.SameSchema e) :
    Homogeneous samples where
  sameSchema := h
  keyedTypes_eq d hd e he := (h d hd e he).keyedTypes_eq
  places_eq d hd e he := (h d hd e he).places_eq
  restored {metadata? body c} hbody hholds {i d} hd := by
    have hstep := Chunk.inStep_of_ofBody hbody
    have hi : i < c.length := by
      rw [hholds.length_eq]
      exact (List.getElem?_eq_some_iff.mp hd).1
    have hfirst : c.reference ∈ samples := List.mem_of_head? hholds.reference_eq
    have hsame := h _ hfirst d (List.mem_of_getElem? hd)
    obtain ⟨r, hr, hplaces⟩ := hstep.exists_places_eq hi
    refine ⟨r, hr, hstep.flattened_eq hi hr, ?_, ?_⟩
    · intro hfree
      rw [← hsame.keyedTypes_eq (hfree _ hfirst) (hfree d (List.mem_of_getElem? hd))]
      exact Document.keyedTypes_of_places hplaces
    · intro hfree
      rw [hplaces, hsame.places_eq (hfree _ hfirst) (hfree d (List.mem_of_getElem? hd))]

/-- Samples in one window have one schema if they have one fingerprint. -/
theorem of_fills {z : Compression} {w : Window} {s : Segment} (hfills : w.Fills z s)
    (hfingerprint : ∀ d ∈ s.samples, ∀ e ∈ s.samples, d.fingerprint = e.fingerprint) {offered : List Document}
    (hoffered : ∀ d ∈ s.samples, d ∈ offered) (hcrc : Crc32.Separates (Document.hashed offered)) :
    Homogeneous s.samples :=
  of_sameSchema fun d hd e he =>
    Document.sameSchema_of_fingerprint hcrc (hoffered d hd) (hoffered e he) (hfingerprint d hd e he)
      (hfills.holds.types_eq d hd e he)

end Homogeneous

/-! ## In memory -/

namespace Collector

/-- The sample that a request offers. -/
def Request.sample? : Request → Option Document
  | .add sample => some sample
  | _ => none

/-- The samples that requests offer, taken or not. -/
def offered (requests : List Request) : List Document :=
  requests.filterMap Request.sample?

/-- A request adds no sample to the ledger but the one it offers. -/
theorem Ledger.mem_note {l : Ledger} {r : Request} {answer : Answer} {d : Document}
    (hd : d ∈ (l.note r answer).accepted) : d ∈ l.accepted ∨ r.sample? = some d := by
  rw [Ledger.note.eq_def] at hd
  split at hd
  · rcases List.mem_append.mp hd with hd | hd
    · exact .inl hd
    · exact .inr (congrArg some (List.mem_singleton.mp hd).symm)
  · exact .inl hd
  · simp [Ledger.empty] at hd
  · exact .inl hd

/-- No sample is in the ledger that was not offered. -/
theorem mem_offered {σ : Type} [Collector σ] {c : σ} {l : Ledger} {requests : List Request} {d : Document}
    (hd : d ∈ (run c l requests).2.accepted) : d ∈ l.accepted ∨ d ∈ offered requests := by
  induction requests generalizing c l with
  | nil => exact .inl hd
  | cons r requests ih =>
    rcases ih hd with hd | hd
    · rcases Ledger.mem_note hd with hd | hd
      · exact .inl hd
      · exact .inr (List.mem_filterMap.mpr ⟨r, List.mem_cons_self, hd⟩)
    · obtain ⟨r', hr', hd⟩ := List.mem_filterMap.mp hd
      exact .inr (List.mem_filterMap.mpr ⟨r', List.mem_cons_of_mem _ hr', hd⟩)

end Collector

/-- The groups of runs in which an adaptive collector gives samples back are homogeneous. -/
theorem Adaptive.Fills.homogeneous {k : Nat} {z : Compression} {a : Adaptive} {s : Segment} (h : a.Fills k z s)
    {offered : List Document} (hoffered : ∀ d ∈ s.samples, d ∈ offered)
    (hcrc : Crc32.Separates (Document.hashed offered)) :
    ∀ g ∈ inGroupsOfRuns k s.samples, Homogeneous g := by
  intro g hg
  have hmem : ∀ d ∈ g, d ∈ s.samples := by
    intro d hd
    rw [← flatten_inGroupsOfRuns h.pos s.samples]
    exact List.mem_flatten_of_mem hg hd
  have hne : s.samples ≠ [] := by
    intro hnil
    rw [hnil] at hg
    simp [inGroupsOfRuns, inRuns] at hg
  rw [← Segment.samples_ofGroups s.metadata? (inGroupsOfRuns k s.samples)] at hg
  obtain ⟨segment, hsegment, rfl⟩ := List.mem_map.mp hg
  obtain ⟨w, -, hfills⟩ := Segment.exists_holder (h.windows_fill hne) hsegment
  exact .of_fills hfills (fingerprint_eq_of_mem_inGroupsOfRuns (Segment.mem_of_mem_ofGroups hsegment))
    (fun d hd => hoffered d (hmem d hd)) hcrc

/-! ## In front of a sink -/

/-- The chunks of a collector in front of a sink, told from outside: those that have been written, and the open
window. -/
structure Shelf where
  written : List Segment
  current : Segment

namespace Shelf

/-- Nothing. -/
def empty : Shelf :=
  ⟨[], ⟨none, []⟩⟩

/-- If the sink has other contents than before, the open window has been written. -/
def wrote (before after : Bytes) (l : Shelf) : Shelf :=
  if after = before then l else ⟨l.written ++ [l.current], ⟨none, []⟩⟩

/-- A sample has been taken or refused. -/
def took (sample : Document) (result : Except Error Unit) (l : Shelf) : Shelf :=
  match result with
  | .ok () => { l with current := ⟨l.current.metadata?, l.current.samples ++ [sample]⟩ }
  | .error _ => l

/-- All chunks, the open window included. -/
def segments (l : Shelf) : List Segment :=
  l.written ++ [l.current]

/-- All samples in them. -/
def samples (l : Shelf) : List Document :=
  l.written.flatMap Segment.samples ++ l.current.samples

/-- What would be known of a collector with these chunks that has never begun again. -/
def deliveries (l : Shelf) : Deliveries :=
  ⟨l.samples, l.current.metadata?, l.written.map Segment.metadata?⟩

theorem mem_samples {l : Shelf} {segment : Segment} (hsegment : segment ∈ l.segments) {d : Document}
    (hd : d ∈ segment.samples) : d ∈ l.samples := by
  rcases List.mem_append.mp hsegment with hsegment | hsegment
  · exact List.mem_append_left _ (List.mem_flatMap.mpr ⟨segment, hsegment, hd⟩)
  · rw [List.mem_singleton.mp hsegment] at hd
    exact List.mem_append_right _ hd

@[simp] theorem wrote_self (contents : Bytes) (l : Shelf) : l.wrote contents contents = l :=
  if_pos rfl

theorem wrote_of_ne {before after : Bytes} (h : after ≠ before) (l : Shelf) :
    l.wrote before after = ⟨l.written ++ [l.current], ⟨none, []⟩⟩ :=
  if_neg h

/-- The samples of a window that is written are still there. -/
@[simp] theorem samples_wrote (before after : Bytes) (l : Shelf) : (l.wrote before after).samples = l.samples := by
  rw [wrote]
  split
  · rfl
  · simp [samples]

/-- The deliveries of a collector change as its chunks do. -/
theorem deliveries_wrote (before after : Bytes) (l : Shelf) :
    (l.wrote before after).deliveries = l.deliveries.wrote before after := by
  by_cases h : after = before
  · rw [h, wrote_self, Deliveries.wrote_self]
  · rw [deliveries, samples_wrote, wrote_of_ne h, Deliveries.wrote_of_ne h]
    simp [deliveries]

end Shelf

namespace Writer

/-- What a collector in front of a sink can be asked, to begin again included. -/
inductive Call where
  | common (r : Collector.Request)
  | flush

/-- The sample that a call offers. -/
def Call.sample? : Call → Option Document
  | .common r => r.sample?
  | .flush => none

variable {σ : Type} [Writer σ]

/-- The collector after a call. -/
def answer (c : σ) : Call → σ
  | .common r => (Collector.serve c r).2
  | .flush => (Writer.flush c).2

/-- What a call does to the chunks, writing apart. -/
def settle (c : σ) (l : Shelf) : Call → Shelf
  | .common (.add sample) => l.took sample (Collector.add sample c).1
  | .common (.setMetadata d) => { l with current := ⟨some d, l.current.samples⟩ }
  | .common .reset => { l with current := ⟨none, []⟩ }
  | .common .resolve | .common .info | .flush => l

/-- The chunks after a call. -/
def shelve (c : σ) (l : Shelf) (call : Call) : Shelf :=
  settle c (l.wrote (contents c) (contents (answer c call))) call

/-- A call that the sink does not see writes nothing. -/
theorem shelve_of_contents_eq {c : σ} {call : Call} (h : contents (answer c call) = contents c) (l : Shelf) :
    shelve c l call = settle c l call := by
  rw [shelve, h, Shelf.wrote_self]

/-- The collector and its chunks, after calls, one after the other. -/
def follow (c : σ) (l : Shelf) : List Call → σ × Shelf
  | [] => (c, l)
  | call :: calls => follow (answer c call) (shelve c l call) calls

/-- A call puts no sample on the shelf but the one it offers. -/
theorem mem_samples_settle {c : σ} {l : Shelf} {call : Call} {d : Document} (hd : d ∈ (settle c l call).samples) :
    d ∈ l.samples ∨ call.sample? = some d := by
  cases call with
  | flush => exact .inl hd
  | common r =>
    cases r with
    | add sample =>
      rw [settle, Shelf.took.eq_def] at hd
      split at hd
      · rw [Shelf.samples, ← List.append_assoc] at hd
        rcases List.mem_append.mp hd with hd | hd
        · exact .inl hd
        · exact .inr (congrArg some (List.mem_singleton.mp hd).symm)
      · exact .inl hd
    | reset =>
      rw [settle, Shelf.samples, List.append_nil] at hd
      exact .inl (List.mem_append_left _ hd)
    | setMetadata | resolve | info => exact .inl hd

/-- No sample is on the shelf that was not offered. -/
theorem mem_samples_follow {c : σ} {l : Shelf} {calls : List Call} {d : Document}
    (hd : d ∈ (follow c l calls).2.samples) : d ∈ l.samples ∨ d ∈ calls.filterMap Call.sample? := by
  induction calls generalizing c l with
  | nil => exact .inl hd
  | cons call calls ih =>
    rcases ih hd with hd | hd
    · rcases mem_samples_settle hd with hd | hd
      · exact .inl (by rwa [Shelf.samples_wrote] at hd)
      · exact .inr (List.mem_filterMap.mpr ⟨call, List.mem_cons_self, hd⟩)
    · obtain ⟨call', hcall', hd⟩ := List.mem_filterMap.mp hd
      exact .inr (List.mem_filterMap.mpr ⟨call', List.mem_cons_of_mem _ hcall', hd⟩)

end Writer

namespace AdaptiveStreaming

/-- Every chunk has samples of one fingerprint, and for those in the open window it is the one that is remembered. -/
structure Shelves (k : Nat) (z : Compression) (s : AdaptiveStreaming) (l : Shelf) : Prop where
  delivers : s.inner.Delivers k z l.deliveries l.written l.current.samples
  remembered : ∀ d ∈ l.current.samples, s.fingerprint? = some d.fingerprint
  written_eq : ∀ segment ∈ l.written, ∀ d ∈ segment.samples, ∀ e ∈ segment.samples, d.fingerprint = e.fingerprint

namespace Shelves

variable {k : Nat} {z : Compression} {s : AdaptiveStreaming} {l : Shelf}

theorem empty (maxSamples : Nat) (z : Compression) {sink : Sink} (h : sink.contents = []) :
    (AdaptiveStreaming.empty maxSamples z sink).Shelves (max maxSamples 1) z .empty where
  delivers := Streaming.delivers_empty maxSamples z h
  remembered := by simp [Shelf.empty]
  written_eq := by simp [Shelf.empty]

/-- All chunks have samples of one fingerprint each. -/
theorem fingerprint_eq (h : s.Shelves k z l) {segment : Segment} (hsegment : segment ∈ l.segments) :
    ∀ d ∈ segment.samples, ∀ e ∈ segment.samples, d.fingerprint = e.fingerprint := by
  rcases List.mem_append.mp hsegment with hsegment | hsegment
  · exact h.written_eq segment hsegment
  · rw [List.mem_singleton.mp hsegment]
    intro d hd e he
    exact Option.some.inj ((h.remembered d hd).symm.trans (h.remembered e he))

/-- All chunks come from windows. -/
theorem exists_fills (h : s.Shelves k z l) {segment : Segment} (hsegment : segment ∈ l.segments) :
    ∃ w, Window.Fills z w segment := by
  rcases List.mem_append.mp hsegment with hsegment | hsegment
  · exact (h.delivers.segments_fill segment hsegment).2.2
  · rw [List.mem_singleton.mp hsegment]
    exact ⟨_, h.delivers.rest_fills⟩

/-- Nothing else about the sink matters than what it has taken. -/
theorem setSink (h : s.Shelves k z l) {sink : Sink} (hcontents : sink.contents = s.inner.sink.contents) :
    ({ s with inner := { s.inner with sink } } : AdaptiveStreaming).Shelves k z l :=
  ⟨h.delivers.setSink hcontents, h.remembered, h.written_eq⟩

/-- A window that is written is a chunk of one fingerprint, and a new one has no samples. -/
theorem afterWrite (h : s.Shelves k z l) (hsamples : s.inner.current.info.samples ≠ 0) {bytes : Bytes}
    (hbytes : s.inner.current.resolve = .ok bytes) (fingerprint? : Option Fingerprint) :
    (⟨s.inner.afterWrite bytes, fingerprint?⟩ : AdaptiveStreaming).Shelves k z
      (l.wrote s.inner.sink.contents (s.inner.afterWrite bytes).sink.contents) where
  delivers := by
    have hdelivers := h.delivers.written hsamples hbytes
    rw [← Shelf.deliveries_wrote] at hdelivers
    rw [Shelf.wrote_of_ne (Streaming.contents_afterWrite_ne hbytes)] at hdelivers ⊢
    exact hdelivers
  remembered := by simp [Shelf.wrote_of_ne (Streaming.contents_afterWrite_ne hbytes)]
  written_eq := by
    rw [Shelf.wrote_of_ne (Streaming.contents_afterWrite_ne hbytes)]
    intro segment hsegment
    exact h.fingerprint_eq hsegment

/-- A sample goes to an open window whose samples have its fingerprint. -/
theorem taken (h : s.Shelves k z l) {sample : Document} {w : Window}
    (hadd : s.inner.current.add sample = (.ok (), w))
    (hsame : ∀ d ∈ l.current.samples, d.fingerprint = sample.fingerprint) :
    (⟨{ s.inner with current := w }, some sample.fingerprint⟩ : AdaptiveStreaming).Shelves k z
      (l.took sample (.ok ())) where
  delivers := by
    have hdelivers := h.delivers.taken hadd
    rw [Shelf.deliveries, Shelf.samples, Shelf.took, ← List.append_assoc]
    exact hdelivers
  remembered := by
    intro d hd
    rcases List.mem_append.mp hd with hd | hd
    · exact congrArg some (hsame d hd).symm
    · rw [List.mem_singleton.mp hd]
  written_eq := h.written_eq

/-- The samples in the open window have the fingerprint of a sample that goes there. -/
theorem fingerprint_eq_of_for (h : s.Shelves k z l) {f : Fingerprint}
    (hfor : (∀ g ∈ s.fingerprint?, g = f) ∨ s.inner.current.info.samples = 0) :
    ∀ d ∈ l.current.samples, d.fingerprint = f := by
  intro d hd
  rcases hfor with hfor | hnone
  · exact hfor _ (h.remembered d hd)
  · rw [h.delivers.rest_fills.holds.samples_info, List.length_eq_zero_iff] at hnone
    rw [hnone] at hd
    simp at hd

/-! ### Calls -/

theorem add (h : s.Shelves k z l) (sample : Document) :
    (s.add sample).2.Shelves k z
      ((l.wrote s.inner.sink.contents (s.add sample).2.inner.sink.contents).took sample (s.add sample).1) := by
  have htakes := s.takes sample
  generalize s.add sample = outcome at htakes ⊢
  obtain ⟨result, t⟩ := outcome
  cases htakes with
  | refused e sink hcontents =>
    dsimp only
    rw [hcontents, Shelf.wrote_self]
    exact h.setSink hcontents
  | here w hadd hfor =>
    dsimp only
    rw [Shelf.wrote_self]
    exact h.taken hadd (h.fingerprint_eq_of_for hfor)
  | behind bytes w hsamples hbytes hadd =>
    refine (h.afterWrite hsamples hbytes none).taken hadd ?_
    simp [Shelf.wrote_of_ne (Streaming.contents_afterWrite_ne hbytes)]

theorem flush (h : s.Shelves k z l) :
    s.flush.2.Shelves k z (l.wrote s.inner.sink.contents s.flush.2.inner.sink.contents) := by
  show AdaptiveStreaming.Shelves k z { s with inner := s.inner.flush.2 }
    (l.wrote s.inner.sink.contents s.inner.flush.2.sink.contents)
  rcases s.inner.writeChunk_cases with ⟨-, hwrite⟩ | ⟨hsamples, bytes, hbytes, -, hwrite⟩ |
    ⟨-, e, sink, hwrite, hcontents, -⟩
  · rw [Streaming.flush_of_written hwrite]
    dsimp only
    rw [Sink.contents_flush, Shelf.wrote_self]
    exact h.setSink (Sink.contents_flush _)
  · rw [Streaming.flush_of_written hwrite]
    dsimp only
    rw [Sink.contents_flush]
    exact (h.afterWrite hsamples hbytes s.fingerprint?).setSink (Sink.contents_flush _)
  · rw [Streaming.flush_of_refused hwrite]
    dsimp only
    rw [hcontents, Shelf.wrote_self]
    exact h.setSink hcontents

theorem reset (h : s.Shelves k z l) : s.reset.Shelves k z { l with current := ⟨none, []⟩ } where
  delivers :=
    { h.delivers with
      accepted_eq := rfl
      rest_fills := h.delivers.rest_fills.compression_eq ▸ .empty _ _ }
  remembered := by simp
  written_eq := h.written_eq

/-- Every call leaves chunks of one fingerprint each. -/
theorem answer (h : s.Shelves k z l) (call : Writer.Call) :
    (Writer.answer s call).Shelves k z (Writer.shelve s l call) := by
  cases call with
  | flush => exact h.flush
  | common r =>
    cases r with
    | add sample => exact h.add sample
    | setMetadata d =>
      rw [Writer.shelve_of_contents_eq rfl]
      exact ⟨h.delivers.setMetadata d, h.remembered, h.written_eq⟩
    | resolve | info =>
      rw [Writer.shelve_of_contents_eq rfl]
      exact h
    | reset =>
      rw [Writer.shelve_of_contents_eq rfl]
      exact h.reset

/-- The chunks have one fingerprint each after any calls. -/
theorem follow (h : s.Shelves k z l) (calls : List Writer.Call) :
    (Writer.follow s l calls).1.Shelves k z (Writer.follow s l calls).2 := by
  induction calls generalizing s l with
  | nil => exact h
  | cons call calls ih => exact ih (h.answer call)

end Shelves

end AdaptiveStreaming

/-! ## After any requests and calls -/

/-- Two samples of one fingerprint whose readings have the same types go to one chunk. -/
theorem Adaptive.windows_fill_two (z : Compression) {d e : Document} (hfingerprint : d.fingerprint = e.fingerprint)
    (htypes : Document.types e = Document.types d) :
    List.Forall₂ (Window.Fills z)
      ((run (Adaptive.empty 10 z) .empty [.add d, .add e]).1.batches.flatMap Batch.windows) [⟨none, [d, e]⟩] := by
  have hempty : (Adaptive.empty 10 z).Fills 10 z ⟨none, []⟩ := Adaptive.Fills.empty 10 z
  have hnone : ∀ x ∈ ([] : List Document), Document.types d = Document.types x := by simp
  obtain ⟨a, ha⟩ := hempty.exists_add_of_types hnone
  have hone : ∀ x ∈ [] ++ [d], Document.types e = Document.types x := by simpa using htypes
  obtain ⟨a', ha'⟩ := (hempty.added ha).exists_add_of_types hone
  have hfills : a'.Fills 10 z ⟨none, [d, e]⟩ := (hempty.added ha).added ha'
  have hrun : (run (Adaptive.empty 10 z) .empty [.add d, .add e]).1 = a' := by
    simp only [run, serve]
    rw [show Collector.add d (Adaptive.empty 10 z) = (.ok (), a) from ha]
    exact congrArg Prod.snd ha'
  have hgroups : inGroupsOfRuns 10 [d, e] = [[d, e]] := by
    have hruns : inRuns ([d] ++ [e]) = [] ++ [[d] ++ [e]] := inRuns_concat_same rfl rfl hfingerprint
    rw [inGroupsOfRuns, show inRuns [d, e] = [[d, e]] from hruns]
    simp [inGroups]
  have hwindows := hfills.windows_fill (List.cons_ne_nil _ _)
  rw [hgroups] at hwindows
  rw [hrun]
  exact hwindows

/-- Unless the digests of two samples offered collide, the samples of each chunk of an adaptive collector are
homogeneous, in memory and in front of a sink: they have metrics of the same types under the same bytes, and so, if no
key has a zero byte in it, under the same dotted keys, and if no key has a dot in it either, at the same places. Each
sample then comes back from the chunk under its own keys. -/
theorem Collector.chunks_homogeneous :
    (∀ (maxSamples : Nat) (z : Compression) (requests : List Request),
      Crc32.Separates (Document.hashed (offered requests)) →
      let after := run (Adaptive.empty maxSamples z) .empty requests
      let groups := inGroupsOfRuns (max maxSamples 1) after.2.accepted
      (after.2.accepted ≠ [] → List.Forall₂ (Window.Fills z) (after.1.batches.flatMap Batch.windows)
        (Segment.ofGroups after.2.metadata? groups)) ∧
      ∀ g ∈ groups, Homogeneous g) ∧
    ∀ (maxSamples : Nat) (z : Compression) (refusesWrite refusesFlush : Nat → Bool) (calls : List Writer.Call),
      Crc32.Separates (Document.hashed (calls.filterMap Writer.Call.sample?)) →
      let after := Writer.follow
        (AdaptiveStreaming.empty maxSamples z (.refusing refusesWrite refusesFlush)) .empty calls
      after.1.inner.sink.contents = (after.2.written.map (·.bytes z)).flatten ∧
      after.1.inner.current.Fills z after.2.current ∧
      ∀ segment ∈ after.2.segments, Homogeneous segment.samples := by
  refine ⟨?_, ?_⟩
  · intro maxSamples z requests hcrc after groups
    have hfills : after.1.Fills (max maxSamples 1) z ⟨after.2.metadata?, after.2.accepted⟩ :=
      (Adaptive.tracks_fills (max maxSamples 1) z).run (l := Ledger.empty)
        (Adaptive.Fills.empty maxSamples z) requests
    refine ⟨hfills.windows_fill, hfills.homogeneous ?_ hcrc⟩
    intro d hd
    exact (mem_offered hd).resolve_left (by simp [Ledger.empty])
  · intro maxSamples z refusesWrite refusesFlush calls hcrc after
    have hnothing : (Sink.refusing refusesWrite refusesFlush).contents = [] := rfl
    have hshelves : after.1.Shelves (max maxSamples 1) z after.2 :=
      (AdaptiveStreaming.Shelves.empty maxSamples z hnothing).follow calls
    refine ⟨hshelves.delivers.contents_eq, hshelves.delivers.rest_fills, ?_⟩
    intro segment hsegment
    obtain ⟨w, hfills⟩ := hshelves.exists_fills hsegment
    refine .of_fills hfills (hshelves.fingerprint_eq hsegment) ?_ hcrc
    intro d hd
    exact (Writer.mem_samples_follow (Shelf.mem_samples hsegment hd)).resolve_left (by simp [Shelf.samples, Shelf.empty])

set_option maxRecDepth 4000 in
/-- Of two samples with one key and a third with another, the first two come under one key in front of a sink, and the
chunk is written for the third. -/
theorem Collector.chunks_homogeneous_two_keys :
    ∃ s : AdaptiveStreaming,
      s.inner.sink.contents = Segment.bytes ⟨.stored, 6⟩ ⟨none, [[("x", .int32 1)], [("x", .int32 2)]]⟩ ∧
      s.inner.current.Fills ⟨.stored, 6⟩ ⟨none, [[("y", .int32 3)]]⟩ ∧
      Homogeneous [[("x", .int32 1)], [("x", .int32 2)]] := by
  have hcrc : Crc32.Separates (Document.hashed [[("x", .int32 1)], [("x", .int32 2)], [("y", .int32 3)]]) := by
    unfold Crc32.Separates
    decide +kernel
  have hshelf : (Writer.follow (AdaptiveStreaming.empty 10 ⟨.stored, 6⟩ (.refusing (fun _ => false) fun _ => false)) .empty
      [.common (.add [("x", .int32 1)]), .common (.add [("x", .int32 2)]), .common (.add [("y", .int32 3)])]).2 =
      ⟨[⟨none, [[("x", .int32 1)], [("x", .int32 2)]]⟩], ⟨none, [[("y", .int32 3)]]⟩⟩ := by
    with_unfolding_all rfl
  have hchunks := Collector.chunks_homogeneous.2 10 ⟨.stored, 6⟩ (fun _ => false) (fun _ => false)
    [.common (.add [("x", .int32 1)]), .common (.add [("x", .int32 2)]), .common (.add [("y", .int32 3)])] hcrc
  dsimp only at hchunks
  rw [hshelf] at hchunks
  obtain ⟨hcontents, hcurrent, hsegments⟩ := hchunks
  exact ⟨_, hcontents.trans (List.append_nil _), hcurrent, hsegments _ List.mem_cons_self⟩

/-- Keys with dots: two samples are hashed alike and go to one chunk, but they have different places, and the second
comes back at the place of the first. -/
theorem Collector.homogeneous_dotted_keys :
    let d : Document := [("a.b", .int64 1)]
    let e : Document := [("a", .document [("b", .int64 2)])]
    let after := run (Adaptive.empty 10 ⟨.stored, 6⟩) .empty [.add d, .add e]
    Crc32.Separates (Document.hashed (offered [.add d, .add e])) ∧
      List.Forall₂ (Window.Fills ⟨.stored, 6⟩) (after.1.batches.flatMap Batch.windows) [⟨none, [d, e]⟩] ∧
      d.places ≠ e.places ∧
      ∃ c, Chunk.ofBody none (Segment.body ⟨.stored, 6⟩ [d, e]) = .ok c ∧ c.Holds [d, e] ∧
        c.structured 1 = .ok [("a.b", .int64 2)] := by
  have hrestored : (Chunk.ofSamples none [("a.b", .int64 1)] [[("a", .document [("b", .int64 2)])]]).structured 1 =
      .ok [("a.b", .int64 2)] := by
    with_unfolding_all rfl
  intro d e after
  have hwindows := Adaptive.windows_fill_two ⟨.stored, 6⟩ (by decide +kernel : d.fingerprint = e.fingerprint) (by decide)
  have hbody : Payload.decompress (Segment.body ⟨.stored, 6⟩ [d, e]) = .ok (Segment.payload [d, e]) :=
    Payload.decompress_compress (by decide +kernel) (Payload.compress_eq (by decide +kernel) ⟨.stored, 6⟩)
  have hchunk : Chunk.ofBody none (Segment.body ⟨.stored, 6⟩ [d, e]) = .ok (Chunk.ofSamples none d [e]) := by
    rw [Chunk.ofBody, hbody]
    exact Chunk.ofPayload_chunkPayload (by decide +kernel) (by decide) (by decide +kernel) none
  refine ⟨?_, hwindows, by decide +kernel, _, hchunk, Chunk.represents_ofSamples (by decide +kernel) none, hrestored⟩
  unfold Crc32.Separates
  decide +kernel

/-- Keys with zero bytes: two samples are hashed alike and go to one chunk, but they have different keys. -/
theorem Collector.homogeneous_zero_bytes :
    let d : Document := [("a", .int64 1), ("b\x00c", .int64 2)]
    let e : Document := [("a\x00b", .int64 1), ("c", .int64 2)]
    let after := run (Adaptive.empty 10 ⟨.stored, 6⟩) .empty [.add d, .add e]
    Crc32.Separates (Document.hashed (offered [.add d, .add e])) ∧
      List.Forall₂ (Window.Fills ⟨.stored, 6⟩) (after.1.batches.flatMap Batch.windows) [⟨none, [d, e]⟩] ∧
      d.keyedTypes ≠ e.keyedTypes := by
  intro d e after
  refine ⟨?_, Adaptive.windows_fill_two ⟨.stored, 6⟩ (by decide +kernel : d.fingerprint = e.fingerprint) (by decide),
    by decide +kernel⟩
  unfold Crc32.Separates
  decide +kernel

end Telemetry

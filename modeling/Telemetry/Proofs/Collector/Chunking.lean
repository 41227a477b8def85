import Telemetry.Proofs.Collector.Adaptive
import Telemetry.Zlib.Stored

/-!
# What the in-memory collectors give back

A batch and an adaptive collector differ in how they cut the samples they took into chunks, and in nothing else:
`Gives` says what either owes after any requests, for a given way to cut. `Collector.gives_chunks` says that a
batch cuts into groups of a fixed number, and an adaptive collector into groups of runs of one fingerprint.

Both follow from what the collectors hold (`Batch.Fills`, `Adaptive.Fills`), which every request preserves.
-/

namespace Telemetry

open Collector

/-! ## Chunks of samples -/

theorem Chunk.Holds.length_eq {c : Chunk} {samples : List Document} (h : c.Holds samples) :
    c.length = samples.length := by
  cases samples with
  | nil => exact h.elim
  | cons first rest => exact Chunk.Represents.length_eq h

theorem Chunk.Holds.length_series {c : Chunk} {samples : List Document} (h : c.Holds samples) :
    c.series.length = Segment.metrics samples := by
  cases samples with
  | nil => exact h.elim
  | cons first rest => exact Chunk.Represents.length_series h

/-- Chunks of groups have the samples of the groups and their metrics. -/
theorem Chunk.sums_eq {chunks : List Chunk} {groups : List (List Document)}
    (h : List.Forall₂ Chunk.Holds chunks groups) :
    (chunks.map Chunk.length).sum = groups.flatten.length ∧
      (chunks.map fun c => c.series.length).sum = (groups.map Segment.metrics).sum := by
  induction h with
  | nil => exact ⟨rfl, rfl⟩
  | cons hc hmore ih =>
    obtain ⟨hsamples, hmetrics⟩ := ih
    simp only [List.map_cons, List.sum_cons, List.flatten_cons, List.length_append]
    rw [hsamples, hmetrics, hc.length_eq, hc.length_series]
    exact ⟨rfl, rfl⟩

/-! ## What a collector owes -/

/-- What a collector that cuts samples in a given way gives back, according to its ledger.

Without samples there is nothing to give. The samples are counted, and the metrics of each chunk. Samples are given
back as records: the metadata document that was last set, and then the chunks, whose samples and series are those that
are counted. -/
structure Gives {σ : Type} [Collector σ] (c : σ) (l : Ledger) (z : Compression)
    (cut : List Document → List (List Document)) : Prop where
  nothing : l.accepted = [] → (resolve c).1 = .error .noReference
  info_eq : info c = ⟨l.accepted.length, ((cut l.accepted).map Segment.metrics).sum⟩
  chunks : l.accepted ≠ [] →
    (∀ s ∈ Segment.ofGroups l.metadata? (cut l.accepted), s.Readable z) →
    ∃ bytes chunks, (resolve c).1 = .ok bytes ∧ Reads bytes l.metadata? (cut l.accepted) chunks ∧
      info c = ⟨(chunks.map Chunk.length).sum, (chunks.map fun c => c.series.length).sum⟩

/-- A collector owes nothing more if its windows hold the samples as they are cut. -/
theorem Gives.of_windows {σ : Type} [Collector σ] {c : σ} {l : Ledger} {z : Compression}
    {cut : List Document → List (List Document)}
    (hnothing : l.accepted = [] → (resolve c).1 = .error .noReference)
    (hinfo : info c = ⟨l.accepted.length, ((cut l.accepted).map Segment.metrics).sum⟩)
    (hflatten : (cut l.accepted).flatten = l.accepted) (hne : ∀ g ∈ cut l.accepted, g ≠ [])
    (hwindows : l.accepted ≠ [] → ∃ windows, List.Forall₂ (Window.Fills z) windows
      (Segment.ofGroups l.metadata? (cut l.accepted)))
    (hresolve : l.accepted ≠ [] →
      (∀ s ∈ Segment.ofGroups l.metadata? (cut l.accepted), s.Writable) →
      (resolve c).1 = .ok ((Segment.ofGroups l.metadata? (cut l.accepted)).map (·.bytes z)).flatten) :
    Gives c l z cut where
  nothing := hnothing
  info_eq := hinfo
  chunks := by
    intro haccepted hs
    have hgroups : cut l.accepted ≠ [] := by
      intro hnil
      rw [hnil] at hflatten
      exact haccepted hflatten.symm
    obtain ⟨windows, hfill⟩ := hwindows haccepted
    obtain ⟨chunks, hreads⟩ := Window.exists_reads hfill hgroups hne hs
    refine ⟨_, chunks, hresolve haccepted fun s hs' => (hs s hs').writable, hreads, ?_⟩
    obtain ⟨-, -, -, -, -, hholds⟩ := hreads
    obtain ⟨hsamples, hmetrics⟩ := Chunk.sums_eq hholds
    rw [hinfo, hsamples, hmetrics, hflatten]

/-- A batch holds the samples in its ledger, and the metadata document. -/
theorem Batch.tracks_fills (k : Nat) (z : Compression) :
    Tracks fun (b : Batch) l => b.Fills k z ⟨l.metadata?, l.accepted⟩ where
  added h hadd := h.added hadd
  refused h hadd := Batch.eq_of_add_error hadd ▸ h
  metadataSet {_ _ d} h := h.setMetadata d
  resolved := id
  begun h := h.reset

/-- A batch gives back groups of a fixed number. -/
theorem Batch.Fills.gives {k : Nat} {z : Compression} {b : Batch} {l : Ledger} (hk : 0 < k)
    (h : b.Fills k z ⟨l.metadata?, l.accepted⟩) : Gives b l z (inGroups k) :=
  .of_windows h.resolve_nil h.info_eq (flatten_inGroups hk l.accepted)
    (fun _ hg => ne_nil_of_mem_inGroups hg) (fun hne => ⟨b.windows, h.windows_fill hne⟩) h.resolve_eq

/-- An adaptive collector holds the samples in its ledger, and the metadata document. -/
theorem Adaptive.tracks_fills (k : Nat) (z : Compression) :
    Tracks fun (a : Adaptive) l => a.Fills k z ⟨l.metadata?, l.accepted⟩ where
  added h hadd := h.added hadd
  refused h hadd := Adaptive.eq_of_add_error hadd ▸ h
  metadataSet {_ _ d} h := h.setMetadata d
  resolved := id
  begun h := h.reset

/-- An adaptive collector gives back groups of runs. -/
theorem Adaptive.Fills.gives {k : Nat} {z : Compression} {a : Adaptive} {l : Ledger}
    (h : a.Fills k z ⟨l.metadata?, l.accepted⟩) : Gives a l z (inGroupsOfRuns k) :=
  .of_windows h.resolve_nil h.info_eq (flatten_inGroupsOfRuns h.pos l.accepted)
    (fun _ hg => ne_nil_of_mem_inGroupsOfRuns hg)
    (fun hne => ⟨a.batches.flatMap Batch.windows, h.windows_fill hne⟩) h.resolve_eq

/-! ## After any requests -/

/-- After any requests a batch gives back the samples it took in groups of the size asked for, at least one, and
an adaptive collector gives back the longest runs of one fingerprint in such groups. Only the last group of a
batch is shorter; no group is empty, and none of an adaptive collector has samples of two fingerprints. -/
theorem Collector.gives_chunks :
    (∀ (maxSamples : Nat) (z : Compression) (requests : List Request),
      Gives (run (Batch.empty maxSamples z) .empty requests).1
        (run (Batch.empty maxSamples z) .empty requests).2 z (inGroups (max maxSamples 1))) ∧
    (∀ (maxSamples : Nat) (z : Compression) (requests : List Request),
      Gives (run (Adaptive.empty maxSamples z) .empty requests).1
        (run (Adaptive.empty maxSamples z) .empty requests).2 z
        (inGroupsOfRuns (max maxSamples 1))) ∧
    ∀ (maxSamples : Nat) (samples : List Document),
      (inGroups (max maxSamples 1) samples).flatten = samples ∧
      (inGroupsOfRuns (max maxSamples 1) samples).flatten = samples ∧
      (∀ g ∈ (inGroups (max maxSamples 1) samples).dropLast, g.length = max maxSamples 1) ∧
      (∀ g ∈ inGroups (max maxSamples 1) samples, g ≠ [] ∧ g.length ≤ max maxSamples 1) ∧
      ∀ g ∈ inGroupsOfRuns (max maxSamples 1) samples, g ≠ [] ∧ g.length ≤ max maxSamples 1 ∧
        ∀ d ∈ g, ∀ e ∈ g, d.fingerprint = e.fingerprint := by
  refine ⟨?_, ?_, ?_⟩
  · intro maxSamples z requests
    have htracks := (Batch.tracks_fills (max maxSamples 1) z).run
      (l := Ledger.empty) (Batch.Fills.empty maxSamples z) requests
    exact Batch.Fills.gives (by omega) htracks
  · intro maxSamples z requests
    have htracks := (Adaptive.tracks_fills (max maxSamples 1) z).run
      (l := Ledger.empty) (Adaptive.Fills.empty maxSamples z) requests
    exact Adaptive.Fills.gives htracks
  · intro maxSamples samples
    have hpos : 0 < max maxSamples 1 := by omega
    exact ⟨flatten_inGroups hpos samples, flatten_inGroupsOfRuns hpos samples,
      fun g hg => length_of_mem_dropLast_inGroups hg,
      fun g hg => ⟨ne_nil_of_mem_inGroups hg, length_le_of_mem_inGroups hg⟩,
      fun g hg => ⟨ne_nil_of_mem_inGroupsOfRuns hg, length_le_of_mem_inGroupsOfRuns hg,
        fingerprint_eq_of_mem_inGroupsOfRuns hg⟩⟩

/-- A batch with room for one sample in a chunk gives back two samples as two chunks, after the document. -/
theorem Collector.gives_two_chunks :
    ∃ bytes chunks,
      (resolve (run (Batch.empty 0 ⟨.stored, 6⟩) .empty [.setMetadata [("h", .null)], .add [("x", .int32 1)],
        .add [("x", .int32 2)]]).1).1 = .ok bytes ∧
      Reads bytes (some [("h", .null)]) [[[("x", .int32 1)]], [[("x", .int32 2)]]] chunks := by
  have hgives := Collector.gives_chunks.1 0 ⟨.stored, 6⟩ [.setMetadata [("h", .null)], .add [("x", .int32 1)],
    .add [("x", .int32 2)]]
  have hgroups : inGroups (max 0 1) [[("x", Value.int32 1)], [("x", .int32 2)]] =
      [[[("x", .int32 1)]], [[("x", .int32 2)]]] := by
    simp [inGroups]
  have hs : ∀ s ∈ Segment.ofGroups (some [("h", .null)]) [[[("x", .int32 1)]], [[("x", .int32 2)]]],
      s.Readable ⟨.stored, 6⟩ := by
    intro s hs
    simp only [Segment.ofGroups, List.map_cons, List.map_nil, List.mem_cons, List.not_mem_nil, or_false] at hs
    rcases hs with rfl | rfl
    · exact ⟨by decide +kernel, by decide, by decide, by decide +kernel⟩
    · exact ⟨by decide +kernel, by decide, by decide, by decide +kernel⟩
  obtain ⟨bytes, chunks, hbytes, hreads, -⟩ := hgives.chunks (List.cons_ne_nil _ _) (hgroups ▸ hs)
  exact ⟨bytes, chunks, hbytes, hgroups ▸ hreads⟩

end Telemetry

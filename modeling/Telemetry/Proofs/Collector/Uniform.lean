import Telemetry.Proofs.Collector.Offers
import Telemetry.Proofs.Fingerprint

/-!
# Which samples are refused

Whether a sample is refused depends on the types of its metrics, and on those of the samples in the window it would go to.
Samples whose metrics have the same types are all taken, however they are cut (`Config.refusals_eq_nil`). If chunks do not
follow the schema, samples are cut into groups of a fixed number before anything is known of them, and none is refused
exactly if the types are the same within each group (`Config.refusals_eq_nil_iff`).
-/

namespace Telemetry

open Collector

/-- The metrics of the samples have the same types, in the same order. -/
def Uniform (samples : List Document) : Prop :=
  ∀ d ∈ samples, ∀ e ∈ samples, Document.types d = Document.types e

/-- No sample is refused if all of them together have what it takes for a sample among them to be taken. -/
theorem Collector.Filling.refusals_eq_nil_of {σ : Type} [Collector σ] [Clocked σ] {P : σ → Segment → Prop}
    (h : Filling P) (helapse : ∀ millis (c : σ), Clocked.elapse millis c = c) {Q : List Document → Prop}
    (htakes : ∀ {c s d later}, P c s → Q (s.samples ++ d :: later) → ∃ c', add d c = (.ok (), c')) {c : σ}
    {s : Segment} (hc : P c s) {offers : List Offer} (hall : Q (s.samples ++ offers.map Offer.sample)) :
    refusals c offers = [] := by
  induction offers generalizing c s with
  | nil => rfl
  | cons o offers ih =>
    rw [List.map_cons] at hall
    obtain ⟨c', hadd⟩ := htakes hc hall
    have hoffer : offer o c = (.ok (), c') := by rw [offer, helapse, hadd]
    rw [refusals_cons_of_ok hoffer]
    apply ih (h.taken hc hadd)
    rwa [List.append_assoc, List.singleton_append]

namespace Batch

variable {z : Compression}

/-- A sample that would go to a group of its kind is taken. -/
theorem Fills.exists_add_of_groups {k : Nat} {b : Batch} {s : Segment} (h : b.Fills k z s) {sample : Document}
    {later : List Document} (hsame : ∀ g ∈ inGroups k (s.samples ++ sample :: later), Uniform g) :
    ∃ b', b.add sample = (.ok (), b') := by
  obtain ⟨closed, last, hdivides, hsamples⟩ := h
  rw [← hsamples, List.append_assoc, inGroups_full_append hdivides.pos hdivides.closed_full] at hsame
  rcases hdivides.add_cases sample with ⟨-, w, -, heq⟩ | ⟨hlt, e, herror, -⟩ | ⟨-, w, -, heq⟩
  · exact ⟨_, heq⟩
  · -- the open window has room, so its samples and this one are in one group
    have hlen : (last ++ [sample]).length ≤ k := by
      rw [List.length_append, List.length_singleton]
      exact hlt
    obtain ⟨g, hg, hfront⟩ := exists_group_of_length_le (by simp) hlen later
    rw [List.append_assoc, List.singleton_append] at hg
    have huniform := hsame g (List.mem_append_right _ hg)
    have hle : last.length ≤ b.current.maxDeltas := by
      have hroom := hdivides.room_eq
      omega
    obtain ⟨w, hadd⟩ := hdivides.current_fills.holds.exists_add_of_types hle fun d hd =>
      huniform sample (hfront.subset (by simp)) d (hfront.subset (by simp [hd]))
    simp [hadd] at herror
  · exact ⟨_, heq⟩

/-- The samples of each window are of one kind. -/
theorem Fills.uniform_of_mem {k : Nat} {b : Batch} {s : Segment} (h : b.Fills k z s) {g : List Document}
    (hg : g ∈ inGroups k s.samples) : Uniform g := by
  have hne : s.samples ≠ [] := by
    intro hnil
    rw [hnil, inGroups_nil] at hg
    simp at hg
  rw [← Segment.samples_ofGroups s.metadata? (inGroups k s.samples)] at hg
  obtain ⟨s', hs', rfl⟩ := List.mem_map.mp hg
  obtain ⟨w, -, hfills⟩ := Segment.exists_holder (h.windows_fill hne) hs'
  exact hfills.holds.types_eq

end Batch

/-- Where chunks do not follow the schema, no sample is refused exactly if the samples of each group are of one kind. -/
theorem Config.refusals_eq_nil_iff (zlib : Compressor) {c : Config} (hinterval : c.interval? = none)
    (hfixed : c.followsSchema = false) (metadata? : Option Document) {offers : List Offer} :
    refusals (c.unbuffered.started zlib metadata?) offers = [] ↔
      ∀ g ∈ inGroups (max c.maxSamples 1) (offers.map Offer.sample), Uniform g := by
  constructor
  · intro hnone g hg
    have hholding := holding_afterOffers hinterval hnone
    obtain ⟨maxSamples, followsSchema, interval?, queue?, level⟩ := c
    obtain rfl : interval? = none := hinterval
    obtain rfl : followsSchema = false := hfixed
    exact Batch.Fills.uniform_of_mem hholding hg
  · intro hsame
    rw [started_eq, Stack.refusals_eq]
    have hbare : (c.unbuffered.plan zlib).IsBare := isBare hinterval
    refine (Plan.filling hbare).refusals_eq_nil_of (Plan.elapse_eq hbare)
      (Q := fun samples => ∀ g ∈ inGroups (max c.maxSamples 1) samples, Uniform g) ?_ (holding_start rfl metadata?) hsame
    intro b s d later hs hgroups
    obtain ⟨maxSamples, followsSchema, interval?, queue?, level⟩ := c
    obtain rfl : interval? = none := hinterval
    obtain rfl : followsSchema = false := hfixed
    exact Batch.Fills.exists_add_of_groups hs hgroups

end Telemetry

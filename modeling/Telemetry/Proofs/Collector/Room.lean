import Mathlib.Data.List.MinMax
import Telemetry.Proofs.Collector.Offers

/-!
# How long buffers become

A window asks for a buffer when its first sample comes, with a slot for each metric of that sample and each sample that
may follow, and never for another one. So if this product is small for every sample, no buffer of a stack becomes long,
whatever is taken and whatever refused (`Plan.Within.longestBuffer_le`).
-/

namespace Telemetry

open Collector

/-- A window of at most so many samples after the first, whose buffer has at most so many slots. -/
structure Window.Within (deltas slots : Nat) (w : Window) : Prop where
  maxDeltas_le : w.maxDeltas ≤ deltas
  size_le : w.deltas.size ≤ slots

namespace Window.Within

variable {deltas slots : Nat} {w : Window}

theorem empty (deltas slots : Nat) (z : Compression) : (Window.empty deltas z).Within deltas slots :=
  ⟨Nat.le_refl _, Nat.zero_le _⟩

theorem setMetadata (h : w.Within deltas slots) (d : Document) : (w.setMetadata d).Within deltas slots :=
  ⟨h.maxDeltas_le, h.size_le⟩

/-- Only the first sample asks for slots. -/
theorem add (h : w.Within deltas slots) {d : Document} (hd : deltas * (Document.readings d).length ≤ slots) :
    (w.add d).2.Within deltas slots := by
  rw [Window.add]
  cases w.reference? with
  | none => exact ⟨h.maxDeltas_le, (Nat.mul_le_mul_right _ h.maxDeltas_le).trans hd⟩
  | some first =>
    dsimp only
    split
    · exact h
    · split
      · exact h
      · refine ⟨h.maxDeltas_le, ?_⟩
        rw [size_recordDeltas]
        exact h.size_le

end Window.Within

/-- What holds of all elements of an array still does if a change of one keeps it. -/
theorem forall_mem_modify {α : Type} {P : α → Prop} {as : Array α} {f : α → α} (h : ∀ a ∈ as, P a)
    (hf : ∀ a, P a → P (f a)) (i : Nat) : ∀ a ∈ as.modify i f, P a := by
  rw [Array.forall_mem_iff_forall_getElem] at h ⊢
  intro j hj
  have hlt : j < as.size := Array.size_modify ▸ hj
  have hP : P as[j] := h j hlt
  rw [Array.getElem_modify]
  split
  · exact hf _ hP
  · exact hP

/-- A batch of such windows. -/
structure Batch.Within (deltas slots : Nat) (b : Batch) : Prop where
  maxSamples_eq : b.maxSamples = deltas + 1
  closed_within : ∀ w ∈ b.closed, w.Within deltas slots
  current_within : b.current.Within deltas slots

namespace Batch.Within

variable {deltas slots : Nat} {b : Batch}

theorem empty {maxSamples : Nat} (h : max maxSamples 1 = deltas + 1) (slots : Nat) (z : Compression) :
    (Batch.empty maxSamples z).Within deltas slots := by
  refine ⟨h, fun w hw => absurd hw (Array.not_mem_empty w), ?_⟩
  rw [Batch.empty, h]
  exact .empty deltas slots z

theorem longestBuffer_le (h : b.Within deltas slots) : b.longestBuffer ≤ slots := by
  refine List.max_le_of_forall_le _ slots ?_
  simp only [Batch.windows, List.forall_mem_map, List.forall_mem_append, List.forall_mem_singleton]
  exact ⟨fun w hw => (h.closed_within w (Array.mem_toList_iff.mp hw)).size_le, h.current_within.size_le⟩

theorem roll (h : b.Within deltas slots) : b.roll.Within deltas slots := by
  rw [Batch.roll]
  split
  · refine ⟨h.maxSamples_eq, Array.forall_mem_push.mpr ⟨h.current_within, h.closed_within⟩, ?_⟩
    rw [h.maxSamples_eq]
    exact .empty deltas slots b.compression
  · exact h

theorem add (h : b.Within deltas slots) {d : Document} (hd : deltas * (Document.readings d).length ≤ slots) :
    (b.add d).2.Within deltas slots :=
  { h.roll with current_within := h.roll.current_within.add hd }

theorem setMetadata (h : b.Within deltas slots) (d : Document) : (b.setMetadata d).Within deltas slots := by
  rw [Batch.setMetadata]
  split
  · exact { h with current_within := h.current_within.setMetadata d }
  · exact { h with closed_within := forall_mem_modify h.closed_within (fun _ hw => hw.setMetadata d) 0 }

end Batch.Within

/-- An adaptive collector of such batches. -/
structure Adaptive.Within (deltas slots : Nat) (a : Adaptive) : Prop where
  maxSamples_eq : max a.maxSamples 1 = deltas + 1
  closed_within : ∀ b ∈ a.closed, b.Within deltas slots
  current_within : a.current.Within deltas slots

namespace Adaptive.Within

variable {deltas slots : Nat} {a : Adaptive}

theorem empty {maxSamples : Nat} (h : max maxSamples 1 = deltas + 1) (slots : Nat) (z : Compression) :
    (Adaptive.empty maxSamples z).Within deltas slots :=
  ⟨h, fun b hb => absurd hb (Array.not_mem_empty b), .empty h slots z⟩

theorem longestBuffer_le (h : a.Within deltas slots) : a.longestBuffer ≤ slots := by
  refine List.max_le_of_forall_le _ slots ?_
  simp only [Adaptive.batches, List.forall_mem_map, List.forall_mem_append, List.forall_mem_singleton]
  exact ⟨fun b hb => (h.closed_within b (Array.mem_toList_iff.mp hb)).longestBuffer_le, h.current_within.longestBuffer_le⟩

theorem turn (h : a.Within deltas slots) (f : Fingerprint) : (a.turn f).Within deltas slots := by
  rw [Adaptive.turn]
  split
  · split
    · exact h
    · exact ⟨h.maxSamples_eq, Array.forall_mem_push.mpr ⟨h.current_within, h.closed_within⟩,
        .empty h.maxSamples_eq slots a.compression⟩
  · exact h

theorem add (h : a.Within deltas slots) {d : Document} (hd : deltas * (Document.readings d).length ≤ slots) :
    (a.add d).2.Within deltas slots := by
  have hturned := h.turn (Document.fingerprint d)
  have hcurrent := hturned.current_within.add hd
  rw [Adaptive.add]
  split <;> rename_i heq <;> rw [heq] at hcurrent
  · exact ⟨hturned.maxSamples_eq, hturned.closed_within, hcurrent⟩
  · exact ⟨hturned.maxSamples_eq, hturned.closed_within, hcurrent⟩

theorem setMetadata (h : a.Within deltas slots) (d : Document) : (a.setMetadata d).Within deltas slots := by
  rw [Adaptive.setMetadata]
  split
  · exact { h with current_within := h.current_within.setMetadata d }
  · exact { h with closed_within := forall_mem_modify h.closed_within (fun _ hb => hb.setMetadata d) 0 }

end Adaptive.Within

/-! ## Stacks -/

namespace Plan

/-- The chunks of a design are made of such windows, whatever stands around them. -/
def Within (deltas slots : Nat) : (p : Plan) → p.State → Prop
  | .batch _ _, (b : Batch) => b.Within deltas slots
  | .adaptive _ _, (a : Adaptive) => a.Within deltas slots
  | .sampling _ inner, (s : Sampling inner.State) => inner.Within deltas slots s.inner
  | .buffered capacity inner, (b : Buffered inner.State) => b.AtRest capacity ∧ inner.Within deltas slots b.inner
  | _, _ => False

namespace Within

variable {deltas slots : Nat}

theorem longestBuffer_le : ∀ {p : Plan} {s : p.State}, p.Within deltas slots s → p.longestBuffer s ≤ slots
  | .batch _ _, _, h => Batch.Within.longestBuffer_le h
  | .adaptive _ _, _, h => Adaptive.Within.longestBuffer_le h
  | .sampling _ inner, _, h => Within.longestBuffer_le (p := inner) h
  | .buffered _ inner, _, h => Within.longestBuffer_le (p := inner) h.2

theorem elapse (millis : Nat) : ∀ {p : Plan} {s : p.State}, p.Within deltas slots s →
    p.Within deltas slots (p.elapse millis s)
  | .batch _ _, _, h | .adaptive _ _, _, h => h
  | .sampling _ inner, _, h => Within.elapse (p := inner) millis h
  | .buffered _ inner, _, h => ⟨h.1.setInner _, Within.elapse (p := inner) millis h.2⟩

theorem setMetadata (d : Document) : ∀ {p : Plan} {s : p.State}, p.Within deltas slots s →
    p.Within deltas slots (setMetadata d s)
  | .batch _ _, _, h => Batch.Within.setMetadata h d
  | .adaptive _ _, _, h => Adaptive.Within.setMetadata h d
  | .sampling _ inner, _, h => Within.setMetadata d (p := inner) h
  | .buffered _ inner, _, h => ⟨h.1.setInner _, Within.setMetadata d (p := inner) h.2⟩

/-- An offer changes the length of a buffer only within the product that the sample asks for. -/
theorem offer {o : Offer} (ho : deltas * (Document.readings o.sample).length ≤ slots) :
    ∀ {p : Plan} {s : p.State}, p.Within deltas slots s → p.Within deltas slots (offer o s).2
  | .batch _ _, _, h => Batch.Within.add h ho
  | .adaptive _ _, _, h => Adaptive.Within.add h ho
  | .sampling interval inner, (c : Sampling inner.State), h => by
    let t : Sampling inner.State := { c.elapse o.millis with inner := inner.elapse o.millis c.inner }
    show Plan.Within deltas slots (.sampling interval inner) (Sampling.add o.sample t).2
    have hinner := Within.offer ho (p := inner) (s := c.inner) h
    rw [Sampling.add]
    split
    · have hadd : Collector.add o.sample t.inner = Collector.offer o c.inner := rfl
      rw [hadd]
      cases hresult : Collector.offer o c.inner with
      | mk result c' =>
        rw [hresult] at hinner
        cases result <;> exact hinner
    · exact Within.elapse (p := inner) o.millis h
  | .buffered _ inner, (b : Buffered inner.State), h => by
    obtain ⟨-, hrest, hinner, -⟩ := h.1.offer o
    have hafter : inner.Within deltas slots (Collector.offer o b.inner).2 := Within.offer ho (p := inner) h.2
    exact ⟨hrest, hinner ▸ hafter⟩

end Within

end Plan

end Telemetry

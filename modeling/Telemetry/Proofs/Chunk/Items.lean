import Telemetry.Chunk.Iterator
import Telemetry.Proofs.Chunk.Consistency
import Telemetry.Proofs.Chunk.Course
import Telemetry.Proofs.Except

/-!
# The items of a stream

The items of a stream are those of its chunks, one chunk after the other (`View.shown`): the chunk itself, its samples,
or its matrix. A chunk that was decoded has all its samples, so nothing fails to be restored (`View.exists_shown`).
-/

namespace Telemetry

open Record ChunkReader

/-- The samples of a chunk, from the first to the last. -/
def Chunk.samples (c : Chunk) : SampleShape → Except Error (List Document)
  | .structured => (List.range c.length).mapM c.structured
  | .flattened => (List.range c.length).mapM c.flattened

/-- What an iterator is over. -/
inductive View where
  | chunks
  | samples (shape : SampleShape)
  | matrices

namespace View

/-- The items of a chunk. -/
def items (view : View) (c : Chunk) : Except Error (List Item) :=
  match view with
  | .chunks => .ok [.chunk c]
  | .samples shape => (c.samples shape).map (List.map .document)
  | .matrices => .ok [.document c.matrix]

/-- The items of chunks, one chunk after the other, each item with its chunk. -/
def shown (view : View) : List Entry → Except Error (List (Item × Entry))
  | [] => .ok []
  | x :: more => do
    let first ← view.items x.chunk
    let rest ← shown view more
    .ok (first.map (·, x) ++ rest)

end View

namespace Chunk

variable {c : Chunk} {shape : SampleShape}

/-- An iterator restores its samples one by one, as they are restored from the chunk. -/
theorem samples_eq_mapM_sample (c : Chunk) (shape : SampleShape) :
    c.samples shape = (List.range c.length).mapM (c.sample shape) := by
  cases shape <;> rfl

theorem samples_eq_ok_iff {docs : List Document} :
    c.samples shape = .ok docs ↔
      docs.length = c.length ∧ ∀ i, (hi : i < docs.length) → c.sample shape i = .ok docs[i] := by
  simp only [samples_eq_mapM_sample, mapM_eq_ok_iff, List.forall₂_iff_get, List.length_range, List.get_eq_getElem,
    List.getElem_range]
  constructor
  · rintro ⟨hlen, h⟩
    exact ⟨hlen.symm, fun i hi => h i (hlen ▸ hi) hi⟩
  · rintro ⟨hlen, h⟩
    exact ⟨hlen.symm, fun i _ hi => h i hi⟩

/-- A chunk that was decoded has all its samples. -/
theorem exists_samples (h : c.InStep) (shape : SampleShape) : ∃ docs, c.samples shape = .ok docs := by
  rw [samples_eq_mapM_sample]
  refine exists_mapM_eq_ok fun i hi => ?_
  have hlt := List.mem_range.mp hi
  cases shape with
  | structured =>
    obtain ⟨d, hd, -⟩ := h.exists_structured_eq hlt
    exact ⟨d, hd⟩
  | flattened => exact ⟨_, by rw [sample, flattened, if_neg (Nat.not_le.mpr hlt)]⟩

end Chunk

namespace View

variable {view : View}

theorem items_samples_eq_ok_iff {shape : SampleShape} {c : Chunk} {first : List Item} :
    (samples shape).items c = .ok first ↔ ∃ docs, c.samples shape = .ok docs ∧ first = docs.map .document := by
  rw [items]
  cases hdocs : c.samples shape with
  | error e => simp [Except.map]
  | ok docs => simp [Except.map, eq_comm]

/-- Every chunk has an item. -/
theorem items_ne_nil {c : Chunk} {first : List Item} (h : view.items c = .ok first) : first ≠ [] := by
  cases view with
  | chunks | matrices =>
    obtain rfl := Except.ok.inj h
    exact List.cons_ne_nil _ _
  | samples shape =>
    obtain ⟨docs, hdocs, rfl⟩ := items_samples_eq_ok_iff.mp h
    have hlen := (Chunk.samples_eq_ok_iff.mp hdocs).1
    intro hnil
    rw [List.map_eq_nil_iff.mp hnil] at hlen
    exact absurd hlen.symm (Nat.succ_ne_zero c.deltas)

theorem shown_cons_eq_ok_iff {x : Entry} {more : List Entry} {all : List (Item × Entry)} :
    view.shown (x :: more) = .ok all ↔
      ∃ first rest, view.items x.chunk = .ok first ∧ view.shown more = .ok rest ∧ all = first.map (·, x) ++ rest := by
  constructor
  · intro h
    obtain ⟨first, hfirst, h⟩ := exists_of_bind_eq_ok h
    obtain ⟨rest, hrest, h⟩ := exists_of_bind_eq_ok h
    exact ⟨first, rest, hfirst, hrest, (Except.ok.inj h).symm⟩
  · rintro ⟨first, rest, hfirst, hrest, rfl⟩
    rw [shown, hfirst, hrest]
    rfl

/-- An item is shown with one of the chunks. -/
theorem mem_of_mem_shown {entries : List Entry} {all : List (Item × Entry)} (h : view.shown entries = .ok all)
    {p : Item × Entry} (hp : p ∈ all) : p.2 ∈ entries := by
  induction entries generalizing all with
  | nil =>
    obtain rfl := Except.ok.inj h
    simp at hp
  | cons x more ih =>
    obtain ⟨first, rest, -, hrest, rfl⟩ := shown_cons_eq_ok_iff.mp h
    rcases List.mem_append.mp hp with hfirst | hmore
    · obtain ⟨i, -, rfl⟩ := List.mem_map.mp hfirst
      exact List.mem_cons_self
    · exact List.mem_cons_of_mem x (ih hrest hmore)

/-- Nothing fails to be restored. -/
theorem exists_shown (view : View) {entries : List Entry} (h : ∀ x ∈ entries, x.chunk.InStep) :
    ∃ all, view.shown entries = .ok all := by
  induction entries with
  | nil => exact ⟨[], rfl⟩
  | cons x more ih =>
    obtain ⟨rest, hrest⟩ := ih fun y hy => h y (List.mem_cons_of_mem x hy)
    have hitems : ∃ first, view.items x.chunk = .ok first := by
      cases view with
      | chunks | matrices => exact ⟨_, rfl⟩
      | samples shape =>
        obtain ⟨docs, hdocs⟩ := Chunk.exists_samples (h x List.mem_cons_self) shape
        exact ⟨_, items_samples_eq_ok_iff.mpr ⟨docs, hdocs, rfl⟩⟩
    obtain ⟨first, hfirst⟩ := hitems
    exact ⟨_, shown_cons_eq_ok_iff.mpr ⟨first, rest, hfirst, hrest, rfl⟩⟩

end View

end Telemetry

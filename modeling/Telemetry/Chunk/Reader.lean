import Telemetry.Chunk
import Telemetry.Record.Stream

/-!
# Chunks pulled from a source

A reader takes records off a source until it has a chunk. A metadata record on the way is remembered and
belongs to every chunk after it, until the next one. The source is released as soon as it has ended,
failed or been closed; from then on there are no more chunks.
-/

namespace Telemetry

/-- A reader of the chunks of a stream: the source, as it was left, whether it has been released, the last metadata
document seen, and how many chunks have been delivered. -/
structure ChunkReader where
  source : Source
  isReleased : Bool
  metadata? : Option Document
  chunksRead : Nat

namespace ChunkReader

/-- A reader of a source from which nothing has been read. -/
def ofSource (source : Source) : ChunkReader :=
  ⟨source, false, none, 0⟩

/-- The reader with its source released. -/
def release (r : ChunkReader) : ChunkReader :=
  { r with isReleased := true }

/-- The next chunk of the source, passing over metadata records. -/
def pull (r : ChunkReader) : Except Error (Option Chunk) × ChunkReader :=
  match _ : Record.readFrom r.source with
  | (.error e, source) => (.error e, { r with source })
  | (.ok none, source) => (.ok none, { r with source, isReleased := true })
  | (.ok (some ⟨.metadata, body⟩), source) =>
    match Document.decode body with
    | .error fault => (.error fault.toError, { r with source })
    | .ok (d, _) => pull { r with source, metadata? := some d }
  | (.ok (some ⟨.chunk, body⟩), source) =>
    match Chunk.ofBody r.metadata? body with
    | .error e => (.error e, { r with source })
    | .ok c => (.ok (some c), { r with source, chunksRead := r.chunksRead + 1 })
termination_by r.source.rest.length
decreasing_by exact Record.rest_lt_of_readFrom (by assumption)

/-- The next chunk, or what is wrong with it, or nothing if the source has been released. -/
def next (r : ChunkReader) : Option (Except Error Chunk) × ChunkReader :=
  if r.isReleased then (none, r)
  else
    match r.pull with
    | (.ok (some c), r) => (some (.ok c), r)
    | (.ok none, r) => (none, r)
    | (.error e, r) => (some (.error e), r.release)

/-- A pull that delivers a chunk leaves the source shorter. -/
theorem rest_lt_of_pull {r t : ChunkReader} {c : Chunk} (h : r.pull = (.ok (some c), t)) :
    t.source.rest.length < r.source.rest.length := by
  induction r using pull.induct generalizing t with
  | case1 r e source hread | case2 r source hread =>
    rw [pull] at h
    split at h <;> rename_i heq <;> rw [hread] at heq <;> simp at heq
    simp at h
  | case3 r body source hread fault hbody =>
    rw [pull] at h
    split at h <;> rename_i heq <;> rw [hread] at heq <;> simp at heq
    obtain ⟨rfl, rfl⟩ := heq
    simp [hbody] at h
  | case4 r body source hread d used hbody ih =>
    rw [pull] at h
    split at h <;> rename_i heq <;> rw [hread] at heq <;> simp at heq
    obtain ⟨rfl, rfl⟩ := heq
    simp only [hbody] at h
    exact Nat.lt_trans (ih h) (Record.rest_lt_of_readFrom hread)
  | case5 r body source hread e hbody =>
    rw [pull] at h
    split at h <;> rename_i heq <;> rw [hread] at heq <;> simp at heq
    obtain ⟨rfl, rfl⟩ := heq
    simp [hbody] at h
  | case6 r body source hread c' hbody =>
    rw [pull] at h
    split at h <;> rename_i heq <;> rw [hread] at heq <;> simp at heq
    obtain ⟨rfl, rfl⟩ := heq
    simp only [hbody, Prod.mk.injEq] at h
    exact h.2 ▸ Record.rest_lt_of_readFrom hread

/-- A chunk that is delivered leaves the source shorter. -/
theorem rest_lt_of_next {r t : ChunkReader} {c : Chunk} (h : r.next = (some (.ok c), t)) :
    t.source.rest.length < r.source.rest.length := by
  unfold next at h
  split at h
  · simp at h
  · split at h <;> simp at h
    next hpull => exact h.2 ▸ rest_lt_of_pull hpull

end ChunkReader

end Telemetry

import Telemetry.CancelToken
import Telemetry.Chunk.Reader
import Telemetry.Chunk.Restore

/-!
# Iterators over a stream

An iterator yields chunks, samples or matrices one by one and then nothing for ever. It ends where the
stream ends, where the stream turns out to be broken, where it is closed, or where its cancellation
signal is found given. What broke the stream is not an item: it is kept, and closing the iterator reports
it once.

The three kinds of iterators share one way of pulling chunks (`ChunkPull`); a sample iterator adds the
chunk it stands in and its position there.
-/

namespace Telemetry

/-! ## Pulling chunks -/

/-- A reader under a cancellation signal, if one is attached, with the error that ended the stream, until it is
reported, and the metadata document of the last chunk that had one. -/
structure ChunkPull where
  reader : ChunkReader
  token? : Option CancelToken
  error? : Option Error
  metadata? : Option Document

namespace ChunkPull

/-- A pull on a source from which nothing has been read. -/
def ofSource (source : Source) (token? : Option CancelToken) : ChunkPull :=
  ⟨ChunkReader.ofSource source, token?, none, none⟩

/-- Whether the signal has been given. -/
def isCancelled (p : ChunkPull) : Bool :=
  match p.token? with
  | some token => token.isCancelled
  | none => false

/-- The pull after its signal, if it has one, has been given. -/
def cancel (p : ChunkPull) : ChunkPull :=
  { p with token? := p.token?.map CancelToken.cancel }

/-- The pull with its source released. -/
def release (p : ChunkPull) : ChunkPull :=
  { p with reader := p.reader.release }

/-- The pull ended by an error. -/
def fail (e : Error) (p : ChunkPull) : ChunkPull :=
  { p.release with error? := some e }

/-- The next chunk. -/
def next (p : ChunkPull) : Option Chunk × ChunkPull :=
  if p.isCancelled then (none, p.release)
  else
    match p.reader.next with
    | (none, reader) => (none, { p with reader })
    | (some (.error e), reader) => (none, { p with reader }.fail e)
    | (some (.ok c), reader) =>
      (some c, { p with reader, metadata? := c.metadata?.or p.metadata? })

/-- A chunk that is delivered leaves the source shorter. -/
theorem rest_lt_of_next {p q : ChunkPull} {c : Chunk} (h : p.next = (some c, q)) :
    q.reader.source.rest.length < p.reader.source.rest.length := by
  unfold next at h
  split at h
  · simp at h
  · split at h <;> simp at h
    next hnext =>
      obtain ⟨rfl, rfl⟩ := h
      exact ChunkReader.rest_lt_of_next hnext

/-- Release the source and report the error that ended the stream, once. -/
def close (p : ChunkPull) : Except Error Unit × ChunkPull :=
  match p.error? with
  | some e => (.error e, { p.release with error? := none })
  | none => (.ok (), p.release)

end ChunkPull

/-! ## Samples -/

/-- The shape in which samples are restored: that of the reference, or dotted keys. -/
inductive SampleShape where
  | structured
  | flattened
  deriving DecidableEq, Repr

/-- Sample `index` of a chunk in the given shape. -/
def Chunk.sample (c : Chunk) (shape : SampleShape) (index : Nat) : Except Error Document :=
  match shape with
  | .structured => c.structured index
  | .flattened => c.flattened index

/-- An iterator over the samples of a stream: the chunk it stands in, and the position of the next sample there. -/
structure SampleIterator where
  pull : ChunkPull
  shape : SampleShape
  current? : Option Chunk
  position : Nat

namespace SampleIterator

/-- An iterator over a source from which nothing has been read. -/
def ofSource (source : Source) (token? : Option CancelToken) (shape : SampleShape) :
    SampleIterator :=
  ⟨ChunkPull.ofSource source token?, shape, none, 0⟩

/-- The sample at a position of a chunk. A sample that cannot be restored ends the iterator. -/
def yieldFrom (it : SampleIterator) (c : Chunk) (position : Nat) : Option Document × SampleIterator :=
  match c.sample it.shape position with
  | .ok d => (some d, { it with current? := some c, position := position + 1 })
  | .error e => (none, { it with current? := none, position := position + 1, pull := it.pull.fail e })

/-- The first sample of the next chunk. -/
def nextChunk (it : SampleIterator) : Option Document × SampleIterator :=
  match it.pull.next with
  | (none, pull) => (none, { it with pull })
  | (some c, pull) => { it with pull }.yieldFrom c 0

/-- The next sample. -/
def next (it : SampleIterator) : Option Document × SampleIterator :=
  -- the signal also cuts off the samples of a chunk that has been read
  if it.pull.isCancelled then (none, { it with current? := none, pull := it.pull.release })
  else
    match it.current? with
    | some c => if it.position < c.length then it.yieldFrom c it.position else it.nextChunk
    | none => it.nextChunk

/-- How many samples of the current chunk are still to come. -/
def samplesLeft (it : SampleIterator) : Nat :=
  match it.current? with
  | some c => c.length - it.position
  | none => 0

/-- A sample that is delivered either leaves the source shorter or comes out of the current chunk. -/
theorem progress_of_next {it jt : SampleIterator} {d : Document} (h : it.next = (some d, jt)) :
    jt.pull.reader.source.rest.length < it.pull.reader.source.rest.length ∨
      jt.pull.reader.source.rest.length = it.pull.reader.source.rest.length ∧
        jt.samplesLeft < it.samplesLeft := by
  have hyield : ∀ {u v : SampleIterator} {c : Chunk} {n : Nat} {d : Document},
      u.yieldFrom c n = (some d, v) → v = { u with current? := some c, position := n + 1 } := by
    intro u v c n d h
    unfold yieldFrom at h
    split at h <;> simp at h
    exact h.2.symm
  have hchunk : it.nextChunk = (some d, jt) →
      jt.pull.reader.source.rest.length < it.pull.reader.source.rest.length := by
    intro h
    unfold nextChunk at h
    split at h
    · simp at h
    · next hnext =>
      rw [hyield h]
      exact ChunkPull.rest_lt_of_next hnext
  unfold next at h
  split at h
  · simp at h
  · split at h
    · next c hc =>
      split at h
      · next hlt =>
        refine .inr ?_
        rw [hyield h]
        simp only [samplesLeft, hc, true_and]
        omega
      · exact .inl (hchunk h)
    · exact .inl (hchunk h)

/-- Release the source and report the error that ended the stream, once. -/
def close (it : SampleIterator) : Except Error Unit × SampleIterator :=
  let (result, pull) := it.pull.close
  (result, { it with pull, current? := none })

end SampleIterator

/-! ## Any shape -/

/-- What an iterator yields for each step: a chunk as it is, or a document, a sample or the matrix of a chunk. -/
inductive Item where
  | chunk (c : Chunk)
  | document (d : Document)

/-- An iterator over the chunks of a stream, over its samples, or over the matrices of its chunks. -/
inductive StreamIterator where
  | chunks (pull : ChunkPull)
  | samples (it : SampleIterator)
  | matrices (pull : ChunkPull)

namespace StreamIterator

/-- Where chunks come from. -/
def pull : StreamIterator → ChunkPull
  | .chunks p => p
  | .samples it => it.pull
  | .matrices p => p

/-- The metadata document of the last chunk that had one. -/
def metadata? (it : StreamIterator) : Option Document :=
  it.pull.metadata?

/-- The next item. -/
def next : StreamIterator → Option Item × StreamIterator
  | .chunks p =>
    let (c?, p) := p.next
    (c?.map .chunk, .chunks p)
  | .samples it =>
    let (d?, it) := it.next
    (d?.map .document, .samples it)
  | .matrices p =>
    let (c?, p) := p.next
    (c?.map fun c => .document c.matrix, .matrices p)

/-- Release the source and report the error that ended the stream, once. -/
def close : StreamIterator → Except Error Unit × StreamIterator
  | .chunks p =>
    let (result, p) := p.close
    (result, .chunks p)
  | .samples it =>
    let (result, it) := it.close
    (result, .samples it)
  | .matrices p =>
    let (result, p) := p.close
    (result, .matrices p)

/-- How many samples of the current chunk are still to come. -/
def samplesLeft : StreamIterator → Nat
  | .samples it => it.samplesLeft
  | _ => 0

/-- An item that is delivered either leaves the source shorter or comes out of the current chunk. -/
theorem progress_of_next {it jt : StreamIterator} {x : Item} (h : it.next = (some x, jt)) :
    jt.pull.reader.source.rest.length < it.pull.reader.source.rest.length ∨
      jt.pull.reader.source.rest.length = it.pull.reader.source.rest.length ∧
        jt.samplesLeft < it.samplesLeft := by
  match it with
  | .chunks p | .matrices p =>
    simp only [next, Prod.mk.injEq, Option.map_eq_some_iff] at h
    obtain ⟨⟨c, hc, -⟩, rfl⟩ := h
    exact .inl (ChunkPull.rest_lt_of_next (Prod.ext hc rfl))
  | .samples s =>
    simp only [next, Prod.mk.injEq, Option.map_eq_some_iff] at h
    obtain ⟨⟨d, hd, -⟩, rfl⟩ := h
    exact SampleIterator.progress_of_next (Prod.ext hd rfl)

/-- All items that are still to come, after those in hand, and the iterator at its end. -/
def drainAfter (items : Array Item) (it : StreamIterator) : Array Item × StreamIterator :=
  match _ : it.next with
  | (some x, it) => drainAfter (items.push x) it
  | (none, it) => (items, it)
termination_by (it.pull.reader.source.rest.length, it.samplesLeft)
decreasing_by
  rcases progress_of_next (by assumption) with h | ⟨h, h'⟩
  · exact Prod.Lex.left _ _ h
  · rw [h]
    exact Prod.Lex.right _ h'

/-- All items that are still to come, and the iterator at its end. -/
def drain (it : StreamIterator) : Array Item × StreamIterator :=
  drainAfter #[] it

/-- The iterator after its signal, if it has one, has been given. -/
def cancel : StreamIterator → StreamIterator
  | .chunks p => .chunks p.cancel
  | .samples it => .samples { it with pull := it.pull.cancel }
  | .matrices p => .matrices p.cancel

end StreamIterator

end Telemetry

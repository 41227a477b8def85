import Telemetry.CancelToken
import Telemetry.Collector

/-!
# Samples handed to a worker

A buffered collector takes a sample by putting it into a queue; a worker takes samples out of the queue,
in order, and adds them to the wrapped collector. What the wrapped collector refuses is kept and reported
by every `resolve` until a `reset`. Before anything is given back, or begun anew, the queue is brought to
the wrapped collector (`sync`).

A cancellation signal ends the taking of samples, and so does closing. Neither loses a sample that has
been taken: the worker, or whoever waits for it to end, applies what is left in the queue.

## The pieces and their order

`count`, `push`, `giveBack` and `applyMessage` are the indivisible steps out of which producer and worker
are made. The operations of this module put them together with a worker that is done with the queue
whenever an operation returns. A sample is applied under the same lock under which it stops being pending.

`info` asks the wrapped collector first and then reads how much is pending. The lock is not held in between,
so that a worker which is not at rest can apply a sample there; `Buffered.Machine` says what comes of it.

No addition to the wrapped collector panics here. What `join` would keep of a worker that has panicked, an
error that every later `resolve` reports, is left out.
-/

namespace Telemetry

/-- What travels through the queue: a sample to be added, or a request to be told when everything before it
has been applied. -/
inductive Message where
  | sample (d : Document)
  | flush

/-- Whether a message is a request. -/
def Message.isFlush : Message → Bool
  | .sample _ => false
  | .flush => true

/-- A collector behind a queue and a worker.

With the wrapped collector goes what it has refused since the last reset, and the number of samples that
have been taken and not yet applied. The queue holds at most `capacity` messages, first come first. Samples
are taken while it is open and the signal has not been given; it is joined when the worker has ended and
been waited for. -/
structure Buffered (σ : Type) where
  inner : σ
  errors : List Error
  pending : Nat
  queue : List Message
  capacity : Nat
  isOpen : Bool
  isJoined : Bool
  token : CancelToken

namespace Buffered

variable {σ : Type}

/-- A queue and a worker in front of a collector. -/
def around (token : CancelToken) (capacity : Nat) (inner : σ) : Buffered σ :=
  { inner, errors := [], pending := 0, queue := [], capacity, isOpen := true, isJoined := false, token }

/-! ## Steps -/

/-- One more sample is on its way. -/
def count (b : Buffered σ) : Buffered σ :=
  { b with pending := b.pending + 1 }

/-- A sample that was on its way is not sent after all. -/
def giveBack (b : Buffered σ) : Buffered σ :=
  { b with pending := b.pending - 1 }

/-- A message at the end of the queue. -/
def push (m : Message) (b : Buffered σ) : Buffered σ :=
  { b with queue := b.queue ++ [m] }

/-- How much is held when the samples on their way are added to it. -/
def withPending (b : Buffered σ) (held : Info) : Info :=
  { held with samples := held.samples + b.pending }

/-- The signal is given. -/
def cancel (b : Buffered σ) : Buffered σ :=
  { b with token := b.token.cancel }

variable [Collector σ]

/-- A message reaches the wrapped collector: a sample is added and stops being pending, and what is
wrong with it is kept. -/
def applyMessage (b : Buffered σ) : Message → Buffered σ
  | .flush => b
  | .sample d =>
    match Collector.add d b.inner with
    | (.ok (), inner) => { b with inner, pending := b.pending - 1 }
    | (.error e, inner) => { b with inner, pending := b.pending - 1, errors := b.errors ++ [e] }

/-- Everything in the queue reaches the wrapped collector, in order. -/
def settle (b : Buffered σ) : Buffered σ :=
  b.queue.foldl applyMessage { b with queue := [] }

/-- Wait until the worker has ended; what it left in the queue is applied. -/
def join (b : Buffered σ) : Buffered σ :=
  { b.settle with isJoined := true }

/-- Wait until everything in the queue has been applied. After a cancellation the worker ends and is
waited for; after a close it has already been. -/
def sync (b : Buffered σ) : Buffered σ :=
  if b.token.isCancelled then b.join
  else if b.isOpen then (b.push .flush).settle
  else b

/-! ## Operations -/

/-- Take a sample, unless the collector is cancelled or closed. -/
def add (sample : Document) (b : Buffered σ) : Except Error Unit × Buffered σ :=
  if b.token.isCancelled then (.error .cancelled, b)
  else if b.isOpen then (.ok (), (b.count.push (.sample sample)).settle)
  else (.error (.background .closed), b)

/-- Everything the wrapped collector holds, unless it has refused a sample. -/
def resolveSettled (b : Buffered σ) : Except Error Bytes × Buffered σ :=
  if b.errors.isEmpty then
    let (result, inner) := Collector.resolve b.inner
    (result, { b with inner })
  else (.error (.background (.rejected (b.errors.map Error.message))), b)

/-- The wrapped collector begun anew, its refusals forgotten. -/
def resetSettled (b : Buffered σ) : Buffered σ :=
  { b with inner := Collector.reset b.inner, errors := [] }

/-- Everything the wrapped collector holds when the queue has been brought to it. -/
def resolve (b : Buffered σ) : Except Error Bytes × Buffered σ :=
  b.sync.resolveSettled

/-- The wrapped collector begun anew when the queue has been brought to it. -/
def reset (b : Buffered σ) : Buffered σ :=
  b.sync.resetSettled

/-- Take no more samples, and wait until those taken have been applied. -/
def close (b : Buffered σ) : Buffered σ :=
  { b with isOpen := false }.join

/-- How much the wrapped collector holds, samples on their way included. -/
def info (b : Buffered σ) : Info :=
  b.withPending (Collector.info b.inner)

instance : Collector (Buffered σ) where
  setMetadata d b := { b with inner := Collector.setMetadata d b.inner }
  add := add
  resolve := resolve
  reset := reset
  info := info

end Buffered

end Telemetry

import Telemetry.Collector.Buffered

/-!
# Producer and worker, step by step

The operations of a buffered collector are made of indivisible steps, and between any two steps of the
producer the worker may take some of its own. A `Machine` is the collector together with the places where
producer and worker stand; an `Action` is one step of either, or the cancellation signal being given.
`Machine.step?` says when an action is possible, what it changes, and what can be observed of it
(`Event`); a list of actions is an interleaving (`Machine.run?`).

## The producer

`add` counts the sample, then sends it. If there is no room it stands blocked until there is, or until it
gives up, because of the signal or because the worker has ended; what was counted is then given back.
`resolve` and `reset` send a request behind the samples and wait for it to come back, `close` waits for the
worker to end. Whoever waits for the end applies what the worker has left in the queue. `info` asks the
wrapped collector first, and afterwards reads how much is pending; the worker may come in between.

## The worker

It takes messages one by one and applies each. When it notices the signal it collects what is left, message
by message and what arrives meanwhile included, until it finds the queue empty; then it applies what it has
collected, and ends. It also ends when the queue is empty and closed. No addition to the wrapped collector
panics, so there is no other end for the worker; `Machine.join?` has no branch for one that has panicked.

## A queue without room

A queue of capacity zero holds nothing: a message goes from hand to hand. A waiting worker takes it from
anyone, and a worker that collects takes it from a producer that waits.

## Their surroundings

The signal may be given at any moment, and time goes by at any moment.
-/

namespace Telemetry.Buffered

/-! ## States -/

/-- Where the worker stands: before a message or the signal; with a message that it has taken and not
applied; after it has noticed the signal, collecting what is left and then applying it; at its end. -/
inductive WorkerState where
  | waiting
  | holding (m : Message)
  | collecting (taken : List Message)
  | draining (left : List Message)
  | ended

/-- What the producer does when the queue has been brought to the wrapped collector: give back what that
holds, begin it anew, nothing more, or refuse the sample for whose sake the worker was waited for. -/
inductive Purpose where
  | resolve
  | reset
  | close
  | refuse (d : Document) (e : Error)

/-- Where the producer stands.

Between operations it is idle. A sample it has counted is sent at once, after it has stood blocked, or
given back. For any other purpose it sends a request and waits for the answer, or waits for the worker's
end and applies what is left; then it can finish. Asked how much is held, it stands with what the wrapped
collector has told it. -/
inductive ProducerState where
  | idle
  | counted (d : Document)
  | blocked (d : Document)
  | returning (d : Document) (e : Error)
  | flushing (p : Purpose)
  | awaiting (p : Purpose)
  | joining (p : Purpose)
  | applying (p : Purpose) (left : List Message)
  | finishing (p : Purpose)
  | telling (held : Info)

/-- A buffered collector in the middle of its work: what producer and worker share, where each of them
stands, and whether the producer's request has been answered. -/
structure Machine (σ : Type) where
  shared : Buffered σ
  worker : WorkerState
  producer : ProducerState
  isAnswered : Bool

/-- One step of the producer (up to `finish`), of the worker (up to `leave`), or of their surroundings. -/
inductive Action where
  | add (d : Document)
  | send
  | block
  | heedSignal
  | heedEnd
  | giveBack
  | setMetadata (d : Document)
  | info
  | tell
  | begin (p : Purpose)
  | receiveAnswer
  | join
  | applyLeft
  | finish
  | take
  | apply
  | notice
  | collect
  | leave
  | cancel
  | elapse (millis : Nat)

/-- What can be observed of a step. A sample is accepted or refused by the producer, and reaches the wrapped
collector later, which takes it or refuses it in turn. -/
inductive Event where
  | accepted (d : Document)
  | refused (d : Document) (e : Error)
  | applied (d : Document) (result : Except Error Unit)
  | metadataSet (d : Document)
  | told (i : Info)
  | resolved (result : Except Error Bytes)
  | wasReset
  | wasClosed
  | elapsed (millis : Nat)

/-! ## Steps -/

/-- What can be observed of a message being applied to a collector. -/
def Event.ofMessage {σ : Type} [Collector σ] (inner : σ) : Message → List Event
  | .sample d => [.applied d (Collector.add d inner).1]
  | .flush => []

namespace Machine

variable {σ : Type}

/-- A collector between operations, its worker waiting. -/
def start (token : CancelToken) (capacity : Nat) (inner : σ) : Machine σ :=
  ⟨around token capacity inner, .waiting, .idle, false⟩

/-- Whether the worker has ended. -/
def hasEnded (m : Machine σ) : Bool :=
  match m.worker with
  | .ended => true
  | _ => false

/-- The machine with the producer elsewhere. -/
def producerAt (p : ProducerState) (m : Machine σ) : Machine σ :=
  { m with producer := p }

/-- The machine after a message has been sent, if there is room for it. -/
def offer? (message : Message) (m : Machine σ) : Option (Machine σ) :=
  if m.shared.queue.length < m.shared.capacity then
    some { m with shared := m.shared.push message }
  else if m.shared.capacity = 0 then
    match m.worker with
    | .waiting => some { m with worker := .holding message }
    | _ => none
  else none

/-- The machine after a producer that waits has sent a message, if there is room for it; a worker that
collects takes it from hand to hand. -/
def handOver? (message : Message) (m : Machine σ) : Option (Machine σ) :=
  match m.worker with
  | .collecting taken =>
    if m.shared.capacity = 0 then some { m with worker := .collecting (taken ++ [message]) }
    else m.offer? message
  | _ => m.offer? message

variable [Collector σ]

/-- The machine after a message has been applied; a request is thereby answered. -/
def applied (message : Message) (m : Machine σ) : Machine σ :=
  { m with
    shared := m.shared.applyMessage message
    isAnswered := m.isAnswered || message.isFlush }

/-- What comes of an operation for which the queue has been brought to the wrapped collector. -/
def finished (p : Purpose) (m : Machine σ) : List Event × Machine σ :=
  match p with
  | .resolve =>
    let (result, shared) := m.shared.resolveSettled
    ([.resolved result], { m with shared, producer := .idle })
  | .reset => ([.wasReset], { m with shared := m.shared.resetSettled, producer := .idle })
  | .close => ([.wasClosed], m.producerAt .idle)
  | .refuse d e => ([.refused d e], m.producerAt .idle)

/-- The producer begins an operation for which the queue has to be brought to the wrapped collector. -/
def began (p : Purpose) (m : Machine σ) : Machine σ :=
  match p with
  | .close => { m with shared := { m.shared with isOpen := false }, producer := .joining .close }
  | p =>
    if m.shared.token.isCancelled then m.producerAt (.joining p)
    else if m.shared.isOpen then { m with producer := .flushing p, isAnswered := false }
    else m.producerAt (.finishing p)

/-- The producer begins to add a sample: it is refused at once, or counted. -/
def add? (d : Document) (m : Machine σ) : Option (List Event × Machine σ) :=
  match m.producer with
  | .idle =>
    if m.shared.token.isCancelled then some ([.refused d .cancelled], m)
    else if m.shared.isOpen then
      some ([], { m with shared := m.shared.count, producer := .counted d })
    else some ([.refused d (.background .closed)], m)
  | _ => none

/-- The producer sends what it has in hand, if there is room for it. -/
def send? (m : Machine σ) : Option (List Event × Machine σ) :=
  match m.producer with
  | .counted d => (m.offer? (.sample d)).map fun m => ([.accepted d], m.producerAt .idle)
  | .blocked d => (m.handOver? (.sample d)).map fun m => ([.accepted d], m.producerAt .idle)
  | .flushing p => (m.handOver? .flush).map fun m => ([], m.producerAt (.awaiting p))
  | _ => none

/-- The producer finds no room. -/
def block? (m : Machine σ) : Option (List Event × Machine σ) :=
  match m.producer with
  | .counted d =>
    if m.shared.capacity ≤ m.shared.queue.length then some ([], m.producerAt (.blocked d)) else none
  | _ => none

/-- The producer stops waiting: a sample will be given back with the error, and a request is given up for
waiting until the worker has ended. -/
def stopWaiting? (e : Error) (m : Machine σ) : Option (List Event × Machine σ) :=
  match m.producer with
  | .blocked d => some ([], m.producerAt (.returning d e))
  | .flushing p | .awaiting p => some ([], m.producerAt (.joining p))
  | _ => none

/-- The producer gives back what it has counted, and waits for the end of a worker that has not been told
to end. -/
def giveBack? (m : Machine σ) : Option (List Event × Machine σ) :=
  match m.producer with
  | .returning d e =>
    let m := { m with shared := m.shared.giveBack }
    if m.shared.token.isCancelled then some ([.refused d e], m.producerAt .idle)
    else some ([], m.producerAt (.joining (.refuse d e)))
  | _ => none

/-- The producer finds the worker at its end, and takes what is left in the queue. -/
def join? (m : Machine σ) : Option (List Event × Machine σ) :=
  match m.producer with
  | .joining p =>
    if m.hasEnded then
      some ([], { m with
        shared := { m.shared with queue := [], isJoined := true }
        producer := .applying p m.shared.queue })
    else none
  | _ => none

/-- The producer applies one of the messages left, or has none. -/
def applyLeft? (m : Machine σ) : Option (List Event × Machine σ) :=
  match m.producer with
  | .applying p (message :: left) =>
    some (Event.ofMessage m.shared.inner message, (m.applied message).producerAt (.applying p left))
  | .applying p [] => some ([], m.producerAt (.finishing p))
  | _ => none

/-- The producer reads how much is pending, and tells it together with what the wrapped collector holds. -/
def tell? (m : Machine σ) : Option (List Event × Machine σ) :=
  match m.producer with
  | .telling held => some ([.told (m.shared.withPending held)], m.producerAt .idle)
  | _ => none

/-- The worker takes a message. -/
def take? (m : Machine σ) : Option (List Event × Machine σ) :=
  match m.worker, m.shared.queue with
  | .waiting, message :: queue =>
    some ([], { m with shared := { m.shared with queue }, worker := .holding message })
  | _, _ => none

/-- The worker applies a message. -/
def applyHeld? (m : Machine σ) : Option (List Event × Machine σ) :=
  match m.worker with
  | .holding message =>
    some (Event.ofMessage m.shared.inner message, { m.applied message with worker := .waiting })
  | .draining (message :: left) =>
    some (Event.ofMessage m.shared.inner message, { m.applied message with worker := .draining left })
  | _ => none

/-- The worker notices the signal. -/
def notice? (m : Machine σ) : Option (List Event × Machine σ) :=
  match m.worker with
  | .waiting =>
    if m.shared.token.isCancelled then some ([], { m with worker := .collecting [] }) else none
  | _ => none

/-- The worker collects a message; when it finds none, it has collected what was left. -/
def collect? (m : Machine σ) : Option (List Event × Machine σ) :=
  match m.worker, m.shared.queue with
  | .collecting taken, message :: queue =>
    some ([], { m with shared := { m.shared with queue }, worker := .collecting (taken ++ [message]) })
  | .collecting taken, [] => some ([], { m with worker := .draining taken })
  | _, _ => none

/-- The worker ends: all that was left is applied, or the queue is closed and empty. -/
def leave? (m : Machine σ) : Option (List Event × Machine σ) :=
  match m.worker with
  | .draining [] => some ([], { m with worker := .ended })
  | .waiting =>
    if m.shared.queue.isEmpty && !m.shared.isOpen then some ([], { m with worker := .ended })
    else none
  | _ => none

/-- An operation of a producer that stands between operations. -/
def whenIdle (m : Machine σ) (result : List Event × Machine σ) : Option (List Event × Machine σ) :=
  match m.producer with
  | .idle => some result
  | _ => none

variable [Clocked σ]

/-- What an action does; nothing if it is not possible. -/
def step? : Action → Machine σ → Option (List Event × Machine σ)
  | .add d, m => m.add? d
  | .send, m => m.send?
  | .block, m => m.block?
  | .heedSignal, m => if m.shared.token.isCancelled then m.stopWaiting? .cancelled else none
  | .heedEnd, m => if m.hasEnded then m.stopWaiting? (.background .workerExited) else none
  | .giveBack, m => m.giveBack?
  | .setMetadata d, m =>
    m.whenIdle ([.metadataSet d], { m with shared := Collector.setMetadata d m.shared })
  | .info, m => m.whenIdle ([], m.producerAt (.telling (Collector.info m.shared.inner)))
  | .tell, m => m.tell?
  -- a refusal is no operation of its own
  | .begin (.refuse _ _), _ => none
  | .begin p, m => m.whenIdle ([], m.began p)
  | .receiveAnswer, m =>
    match m.producer with
    | .awaiting p => if m.isAnswered then some ([], m.producerAt (.finishing p)) else none
    | _ => none
  | .join, m => m.join?
  | .applyLeft, m => m.applyLeft?
  | .finish, m =>
    match m.producer with
    | .finishing p => some (m.finished p)
    | _ => none
  | .take, m => m.take?
  | .apply, m => m.applyHeld?
  | .notice, m => m.notice?
  | .collect, m => m.collect?
  | .leave, m => m.leave?
  | .cancel, m => some ([], { m with shared := m.shared.cancel })
  | .elapse millis, m =>
    some ([.elapsed millis], { m with
      shared := { m.shared with inner := Clocked.elapse millis m.shared.inner } })

/-- What actions do, one after the other; nothing if one of them is not possible. -/
def run? : List Action → Machine σ → Option (List Event × Machine σ)
  | [], m => some ([], m)
  | action :: rest, m => do
    let (events, m) ← m.step? action
    let (more, m) ← m.run? rest
    some (events ++ more, m)

end Machine

end Telemetry.Buffered

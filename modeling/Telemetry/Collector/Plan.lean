import Telemetry.Collector.Adaptive
import Telemetry.Collector.Buffered
import Telemetry.Collector.Sampling
import Telemetry.Collector.Streaming

/-!
# Stacks of collectors

Collectors can be put around each other: an interval or a queue around anything. A `Plan` describes such
a stack, `Plan.State` is the type of its state, and the stack is a collector whatever the plan
(`Plan.collector`). A collector of any plan together with its plan is a `Stack`.
-/

namespace Telemetry

/-- The design of a stack of collectors.

A window is one chunk with at most `maxDeltas` samples after the first. Batches and adaptive collectors cut
chunks of so many samples, and their streaming kinds write each as soon as it is finished. An interval, in
milliseconds, or a queue with a worker can be put around any of them. -/
inductive Plan where
  | window (maxDeltas : Nat) (z : Compression)
  | batch (maxSamples : Nat) (z : Compression)
  | adaptive (maxSamples : Nat) (z : Compression)
  | streaming (maxSamples : Nat) (z : Compression)
  | adaptiveStreaming (maxSamples : Nat) (z : Compression)
  | sampling (interval : Nat) (inner : Plan)
  | buffered (capacity : Nat) (inner : Plan)

namespace Plan

/-- What a stack of a given design consists of. -/
def State : Plan → Type
  | .window _ _ => Window
  | .batch _ _ => Batch
  | .adaptive _ _ => Adaptive
  | .streaming _ _ => Streaming
  | .adaptiveStreaming _ _ => AdaptiveStreaming
  | .sampling _ inner => Sampling inner.State
  | .buffered _ inner => Buffered inner.State

/-- A stack is a collector, whatever its design. -/
@[reducible] def collector : (p : Plan) → Collector p.State
  | .window _ _ => inferInstanceAs (Collector Window)
  | .batch _ _ => inferInstanceAs (Collector Batch)
  | .adaptive _ _ => inferInstanceAs (Collector Adaptive)
  | .streaming _ _ => inferInstanceAs (Collector Streaming)
  | .adaptiveStreaming _ _ => inferInstanceAs (Collector AdaptiveStreaming)
  | .sampling _ inner =>
    let _ : Collector inner.State := inner.collector
    inferInstanceAs (Collector (Sampling inner.State))
  | .buffered _ inner =>
    let _ : Collector inner.State := inner.collector
    inferInstanceAs (Collector (Buffered inner.State))

instance (p : Plan) : Collector p.State := p.collector

/-- A stack that has taken nothing. Streaming collectors are in front of the sink, and workers heed the
signal. -/
def start (sink : Sink) (token : CancelToken) : (p : Plan) → p.State
  | .window maxDeltas z => Window.empty maxDeltas z
  | .batch maxSamples z => Batch.empty maxSamples z
  | .adaptive maxSamples z => Adaptive.empty maxSamples z
  | .streaming maxSamples z => Streaming.empty maxSamples z sink
  | .adaptiveStreaming maxSamples z => AdaptiveStreaming.empty maxSamples z sink
  | .sampling interval inner => Sampling.around interval (inner.start sink token)
  | .buffered capacity inner => Buffered.around token capacity (inner.start sink token)

/-- The stack after the signal that its workers heed has been given. -/
def cancel : (p : Plan) → p.State → p.State
  | .sampling _ inner, (s : Sampling inner.State) =>
    ({ s with inner := inner.cancel s.inner } : Sampling inner.State)
  | .buffered _ inner, (b : Buffered inner.State) =>
    ({ b.cancel with inner := inner.cancel b.inner } : Buffered inner.State)
  | _, s => s

/-- The stack after some time has gone by, which its intervals measure. -/
def elapse (millis : Nat) : (p : Plan) → p.State → p.State
  | .sampling _ inner, (s : Sampling inner.State) =>
    ({ s.elapse millis with inner := inner.elapse millis s.inner } : Sampling inner.State)
  | .buffered _ inner, (b : Buffered inner.State) =>
    ({ b with inner := inner.elapse millis b.inner } : Buffered inner.State)
  | _, s => s

instance (p : Plan) : Clocked p.State := ⟨fun millis s => p.elapse millis s⟩

/-- The sink of the streaming collector in the stack, if there is one. -/
def sink? : (p : Plan) → p.State → Option Sink
  | .streaming _ _, (s : Streaming) => some s.sink
  | .adaptiveStreaming _ _, (s : AdaptiveStreaming) => some s.inner.sink
  | .sampling _ inner, (s : Sampling inner.State) => inner.sink? s.inner
  | .buffered _ inner, (b : Buffered inner.State) => inner.sink? b.inner
  | _, _ => none

/-- The number of slots of the longest delta buffer in the stack. -/
def longestBuffer : (p : Plan) → p.State → Nat
  | .window _ _, (w : Window) => w.deltas.size
  | .batch _ _, (b : Batch) => b.longestBuffer
  | .adaptive _ _, (a : Adaptive) => a.longestBuffer
  | .streaming _ _, (s : Streaming) => s.current.deltas.size
  | .adaptiveStreaming _ _, (s : AdaptiveStreaming) => s.inner.current.deltas.size
  | .sampling _ inner, (s : Sampling inner.State) => inner.longestBuffer s.inner
  | .buffered _ inner, (b : Buffered inner.State) => inner.longestBuffer b.inner

/-- Whether a worker belongs to the stack. -/
def hasWorker : Plan → Bool
  | .sampling _ inner => inner.hasWorker
  | .buffered _ _ => true
  | _ => false

end Plan

/-- A stack of collectors with its design. -/
structure Stack where
  plan : Plan
  state : plan.State

namespace Stack

/-- A stack that has taken nothing. -/
def start (p : Plan) (sink : Sink) (token : CancelToken) : Stack :=
  ⟨p, p.start sink token⟩

instance : Collector Stack where
  setMetadata d s := ⟨s.plan, Collector.setMetadata d s.state⟩
  add d s :=
    let (result, state) := Collector.add d s.state
    (result, ⟨s.plan, state⟩)
  resolve s :=
    let (result, state) := Collector.resolve s.state
    (result, ⟨s.plan, state⟩)
  reset s := ⟨s.plan, Collector.reset s.state⟩
  info s := Collector.info s.state

/-- The stack after the signal that its workers heed has been given. -/
def cancel (s : Stack) : Stack :=
  ⟨s.plan, s.plan.cancel s.state⟩

instance : Clocked Stack := ⟨fun millis s => ⟨s.plan, s.plan.elapse millis s.state⟩⟩

/-- The sink of the streaming collector in the stack, if there is one. -/
def sink? (s : Stack) : Option Sink :=
  s.plan.sink? s.state

/-- The number of slots of the longest delta buffer in the stack. -/
def longestBuffer (s : Stack) : Nat :=
  s.plan.longestBuffer s.state

/-! ## Around a stack, and out of it -/

/-- The stack with an interval around it. -/
def behindInterval (interval : Nat) (s : Stack) : Stack :=
  ⟨.sampling interval s.plan, Sampling.around interval s.state⟩

/-- The stack with a queue and a worker around it. -/
def behindQueue (token : CancelToken) (capacity : Nat) (s : Stack) : Stack :=
  ⟨.buffered capacity s.plan, Buffered.around token capacity s.state⟩

/-- What an interval stands around, without the interval. -/
def inner? : Stack → Option Stack
  | ⟨.sampling _ inner, (s : Sampling inner.State)⟩ => some ⟨inner, s.inner⟩
  | _ => none

/-- The stack after its open window has been written and its sink flushed, if it is a streaming
collector; any other has nothing to flush. -/
def flush : Stack → Except Error Unit × Stack
  | ⟨.streaming maxSamples z, (s : Streaming)⟩ =>
    let (result, s) := s.flush
    (result, ⟨.streaming maxSamples z, s⟩)
  | ⟨.adaptiveStreaming maxSamples z, (s : AdaptiveStreaming)⟩ =>
    let (result, s) := s.flush
    (result, ⟨.adaptiveStreaming maxSamples z, s⟩)
  | s => (.ok (), s)

/-- The stack closed, if a worker is its outermost part; any other stays open. -/
def close : Stack → Stack
  | ⟨.buffered capacity inner, (b : Buffered inner.State)⟩ =>
    ⟨.buffered capacity inner, Buffered.close b⟩
  | s => s

end Stack

end Telemetry

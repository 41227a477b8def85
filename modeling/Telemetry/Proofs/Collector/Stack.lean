import Telemetry.Collector.Plan
import Telemetry.Proofs.Collector.Requests

/-!
# What can be asked of a stack, and what can be seen of it

A stack of collectors can be asked what every collector can be asked, and more: to flush, to write what it holds to
some sink, to let time go by, to leave out an interval (`Stack.Request`). Between requests its counts and the bytes in
its sink can be seen (`Stack.View`). All that is ever known of a stack is its answers and views, one after the other
(`Stack.record`).
-/

namespace Telemetry

open Collector

/-- What a stack counts: chunks or batches held, or chunks written, and samples dropped on the way. -/
def Plan.counters : (p : Plan) → p.State → List Nat
  | .window _ _, _ => []
  | .batch _ _, (b : Batch) => [b.windows.length]
  | .adaptive _ _, (a : Adaptive) => [a.batches.length]
  | .streaming _ _, (s : Streaming) => [s.chunksWritten]
  | .adaptiveStreaming _ _, (s : AdaptiveStreaming) => [s.inner.chunksWritten]
  | .sampling _ inner, (s : Sampling inner.State) => s.dropped :: inner.counters s.inner
  | .buffered _ inner, (b : Buffered inner.State) => inner.counters b.inner

namespace Stack

/-- What a stack can be asked: what every collector can; to take the sample that a JSON value stands for; to write the
open window and flush the sink, if there is one; to write everything held to some sink and begin again; to let time go
by; and to leave out the interval that is outermost, if one is. -/
inductive Request where
  | common (r : Collector.Request)
  | addJson (j : Json)
  | flush
  | flushInto (out : Sink)
  | elapse (millis : Nat)
  | unwrap

/-- What a stack answers: what every collector does; whether something has been done; whether everything has been
written, and what is then in the sink; and whether an interval was outermost. -/
inductive Answer where
  | common (answer : Collector.Answer)
  | done (result : Except Error Unit)
  | written (result : Except Error Unit) (contents : Bytes)
  | unwrapped (found : Bool)

/-- The answer to a request, and the stack after it. -/
def serve (c : Stack) : Request → Answer × Stack
  | .common r => (.common (Collector.serve c r).1, (Collector.serve c r).2)
  | .addJson j => (.done (addJson j c).1, (addJson j c).2)
  | .flush => (.done c.flush.1, c.flush.2)
  | .flushInto out =>
    let (result, after, taken) := flushInto c out
    (.written result taken.contents, after)
  | .elapse millis => (.done (.ok ()), ⟨c.plan, c.plan.elapse millis c.state⟩)
  | .unwrap => (.unwrapped c.inner?.isSome, c.inner?.getD c)

/-- What can be seen of a stack between requests: how much it holds, what its sink has taken, if there is one, and
what it counts. -/
structure View where
  info : Info
  contents? : Option Bytes
  counters : List Nat

/-- What can be seen of a stack. -/
def view (c : Stack) : View :=
  ⟨info c, c.sink?.map Sink.contents, c.plan.counters c.state⟩

/-- The answers to requests, one after the other, each with what can then be seen. -/
def record (c : Stack) : List Request → List (Answer × View)
  | [] => []
  | r :: later => ((c.serve r).1, (c.serve r).2.view) :: record (c.serve r).2 later

/-- The stack after requests, one after the other. -/
def after (c : Stack) : List Request → Stack
  | [] => c
  | r :: later => (c.serve r).2.after later

end Stack

end Telemetry

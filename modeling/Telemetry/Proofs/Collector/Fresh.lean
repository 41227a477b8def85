import Telemetry.Proofs.Collector.Buffered.Continues
import Telemetry.Proofs.Collector.Buffered.Rest
import Telemetry.Zlib.Stored

/-!
# Begun again is as new

Each layer of a stack keeps something of its own: a fingerprint, a metadata document, open and closed windows, the time
of the last sample, a count of those dropped, what a worker has been refused. When a stack begins again all of this has
to go, and what the stack was built with has to stay (`Stack.reset_is_fresh_start`).

## Shape of the proof

What a stack was built with shows in it whatever it has been asked (`Stack.Built.after`). So when it begins again it
continues a new stack, in front of a sink that goes on as its own does (`Stack.Built.reset_continues`); and nothing
tells two such stacks apart later but what was written before (`Stack.Continues.record_eq`).

Behind a queue a reset is finished when nothing is on its way any more (`Buffered.Machine.Sound.eq_of_reset`). From
there on the machine and a new one go on alike, step by step (`Buffered.Machine.Continues.run?`).
-/

namespace Telemetry

open Collector

namespace Stack

/-- A stack was built by its design. -/
def Built (c : Stack) : Prop :=
  c.plan.Built c.state

theorem keeps : Keeps Built where
  add {c} h sample := c.plan.keeps.add h sample
  setMetadata {c} h document := c.plan.keeps.setMetadata h document
  resolve {c} h := c.plan.keeps.resolve h
  reset {c} h := c.plan.keeps.reset h

namespace Built

variable {c : Stack}

theorem flush (h : c.Built) : c.flush.2.Built := by
  obtain ⟨p, s⟩ := c
  cases p with
  | streaming maxSamples z => exact Streaming.BuiltWith.flush h
  | adaptiveStreaming maxSamples z => exact Streaming.BuiltWith.flush h
  | window | batch | adaptive | sampling | buffered => exact h

theorem unwrap (h : c.Built) : (c.inner?.getD c).Built := by
  obtain ⟨p, s⟩ := c
  cases p with
  | sampling interval inner => exact h.2
  | window | batch | adaptive | streaming | adaptiveStreaming | buffered => exact h

/-- Nothing that is asked of a stack changes what it was built with. -/
theorem serve (h : c.Built) (r : Request) : (c.serve r).2.Built := by
  cases r with
  | common r => exact keeps.serve h r
  | addJson j => exact keeps.addJson h j
  | flush => exact h.flush
  | flushInto out => exact keeps.flushInto h out
  | elapse millis => exact Plan.Built.elapse millis h
  | unwrap => exact h.unwrap

theorem after (h : c.Built) (history : List Request) : (c.after history).Built := by
  induction history generalizing c with
  | nil => exact h
  | cons r history ih => exact ih (h.serve r)

theorem reset_continues (h : c.Built) (sink : Sink) :
    (reset c).Continues (c.plan.written c.state) (c.plan.chunksWritten c.state)
      (start c.plan (c.sink?.getD sink).anew .fresh) :=
  .mk (Plan.Built.reset_continues sink h)

end Built

/-- What has been written to the sink. -/
def written (c : Stack) : Bytes :=
  c.plan.written c.state

/-- How many chunks have been written to the sink. -/
def chunksWritten (c : Stack) : Nat :=
  c.plan.chunksWritten c.state

end Stack

/-! ## Behind a queue, step by step -/

open Buffered in
/-- After a reset that is finished, a buffered stack that has neither been cancelled nor closed goes on as a new one
does, however producer and worker take turns. -/
theorem Buffered.Machine.run?_of_reset {p : Plan} {capacity : Nat} {sink : Sink} {history : List Action}
    {events : List Event} {m m' : Machine p.State}
    (hrun : (start .fresh capacity (p.start sink .fresh)).run? history = some (events, m)) (hrunning : m.IsRunning)
    (hreset : m.step? .finish = some ([.wasReset], m')) (later : List Action) :
    (m'.run? later).map Prod.fst =
      ((start .fresh capacity (p.start ((p.sink? m.shared.inner).getD sink).anew .fresh)).run? later).map Prod.fst := by
  obtain ⟨hconsistent, hpipe⟩ := run_of_run? (consistent_start .fresh capacity _) hrun
  have hbuilt : p.Built m.shared.inner := hpipe.keeps p.keeps (fun _ => Plan.Built.elapse _) (p.built_start sink)
  obtain rfl := ((sound_start .fresh capacity _).of_run? hrun).eq_of_reset hconsistent hrunning hreset
  have hinner := hbuilt.reset_continues sink
  have hcontinues : Machine.Continues (p.Continues (p.written m.shared.inner) (p.chunksWritten m.shared.inner))
      ⟨around .fresh capacity (Collector.reset m.shared.inner), .waiting, .idle, m.isAnswered⟩
      (start .fresh capacity (p.start ((p.sink? m.shared.inner).getD sink).anew .fresh)) :=
    continues_of_silent (.mk _ hinner) rfl rfl rfl
  exact (hcontinues.run? (p.respects _ _) (fun millis _ _ h => h.elapse millis) later).events_eq

/-! ## Any stack -/

open Buffered

/-- Reset is a fresh start, whatever a stack has been asked before, and whatever has come of it.

Its answers are those of a new stack of the same design, in front of an empty sink whose calls go as those of its own
sink do from then on; and so is what can be seen of it after each, but for what was written to the sink before and the
number of chunks that were.

Behind a queue that has been neither cancelled nor closed, the same holds of every single step: whatever producer,
worker and surroundings do after the reset, and in whatever order, can be done with a new collector, and the same can
be observed. -/
theorem Stack.reset_is_fresh_start (p : Plan) (sink : Sink) :
    (∀ history : List Request,
      let c := (start p sink .fresh).after history
      let new := start c.plan (c.sink?.getD sink).anew .fresh
      (reset c).view = new.view.after c.written c.chunksWritten ∧
      ∀ later, (reset c).record later =
        (new.record later).map fun (answer, view) => (answer, view.after c.written c.chunksWritten)) ∧
    ∀ {capacity : Nat} {history : List Action} {events : List Event} {m m' : Machine p.State},
      (Machine.start .fresh capacity (p.start sink .fresh)).run? history = some (events, m) → m.IsRunning →
      m.step? .finish = some ([.wasReset], m') → ∀ later,
        (m'.run? later).map Prod.fst =
          ((Machine.start .fresh capacity (p.start ((p.sink? m.shared.inner).getD sink).anew .fresh)).run? later).map
            Prod.fst := by
  refine ⟨fun history => ?_, Machine.run?_of_reset⟩
  have hstart : (start p sink .fresh).Built := p.built_start sink
  have hcontinues := (hstart.after history).reset_continues sink
  exact ⟨hcontinues.view_eq, hcontinues.record_eq⟩

/-- The worker has been refused a sample, and a metadata document waits for the first chunk. -/
theorem Stack.reset_is_fresh_start_rejected :
    ∃ events m m',
      ((Machine.start .fresh 1 ((Plan.batch 300 ⟨.stored, 6⟩).start Sink.empty .fresh)).run?
          [.setMetadata [("host", .null)], .add [("x", .int32 1)], .send, .take, .add [("x", .int32 1), ("y", .int32 2)],
            .apply, .send, .take, .apply, .begin .reset, .send, .take, .apply, .receiveAnswer] = some (events, m) ∧
        m.shared.errors.length = 1 ∧ m.IsRunning ∧ m.step? .finish = some ([.wasReset], m')) ∧
      ∀ later, (m'.run? later).map Prod.fst =
        ((Machine.start .fresh 1 ((Plan.batch 300 ⟨.stored, 6⟩).start Sink.empty.anew .fresh)).run? later).map
          Prod.fst := by
  refine Exists.imp (fun events => Exists.imp fun m => Exists.imp fun m' h => ⟨h, ?_⟩)
    ⟨_, _, _, rfl, rfl, ⟨rfl, rfl⟩, rfl⟩
  obtain ⟨hrun, -, hrunning, hreset⟩ := h
  exact (reset_is_fresh_start (.batch 300 ⟨.stored, 6⟩) Sink.empty).2 hrun hrunning hreset

end Telemetry

import Telemetry.Proofs.Collector.Adaptive
import Telemetry.Proofs.Collector.Continues
import Telemetry.Zlib.Stored

/-!
# A sample that is refused leaves no trace

Taking a sample can close a window, a batch or a chunk before the sample is looked at. It can be refused all the same,
but not once something has been closed: what is opened for a sample takes it (`Batch.eq_of_add_error`,
`Adaptive.eq_of_add_error`, `Streaming.eq_of_add_error`). So a refused sample changes nothing but the number of calls
that the sink has had, and that matters only as far as the sink goes by it when it refuses.

A stack that has refused a sample is therefore like the stack before, in front of a sink that goes on in the same way
(`Plan.continues_of_refused`). What that comes to is `Stack.refused_leaves_no_trace`.
-/

namespace Telemetry

open Collector

/-! ## What a refused sample changes -/

namespace Streaming

/-- Only the sink has been called for a refused sample. -/
theorem eq_of_add_error {s s' : Streaming} {sample : Document} {e : Error} (h : s.add sample = (.error e, s')) :
    ∃ sink, s' = { s with sink } ∧ sink.contents = s.sink.contents := by
  have htakes := s.takes sample
  rw [h] at htakes
  cases htakes with
  | refused _ sink hcontents => exact ⟨sink, rfl, hcontents⟩

end Streaming

namespace AdaptiveStreaming

/-- Only the sink has been called for a refused sample. -/
theorem eq_of_add_error {s s' : AdaptiveStreaming} {sample : Document} {e : Error}
    (h : s.add sample = (.error e, s')) :
    ∃ sink, s' = { s with inner := { s.inner with sink } } ∧ sink.contents = s.inner.sink.contents := by
  have htakes := s.takes sample
  rw [h] at htakes
  cases htakes with
  | refused _ sink hcontents => exact ⟨sink, rfl, hcontents⟩

end AdaptiveStreaming

/-- A sample is refused behind an interval only by the collector there, and the interval does not count it. -/
theorem Sampling.exists_of_add_error {σ : Type} [Collector σ] {s s' : Sampling σ} {sample : Document} {e : Error}
    (h : s.add sample = (.error e, s')) :
    ∃ inner, Collector.add sample s.inner = (.error e, inner) ∧ s' = { s with inner } := by
  rw [Sampling.add] at h
  split at h
  · cases hadd : Collector.add sample s.inner with
    | mk result inner =>
      rw [hadd] at h
      cases result with
      | ok _ => simp at h
      | error e' =>
        obtain ⟨hresult, rfl⟩ := Prod.mk.inj h
        exact ⟨inner, by rw [Except.error.inj hresult], rfl⟩
  · simp at h

namespace Plan

/-- The stack with another sink in front of it, if it has one. -/
def withSink (sink : Sink) : (p : Plan) → p.State → p.State
  | .streaming _ _, (s : Streaming) => ({ s with sink } : Streaming)
  | .adaptiveStreaming _ _, (s : AdaptiveStreaming) =>
    ({ s with inner := { s.inner with sink } } : AdaptiveStreaming)
  | .sampling _ inner, (s : Sampling inner.State) =>
    ({ s with inner := inner.withSink sink s.inner } : Sampling inner.State)
  | .buffered _ inner, (b : Buffered inner.State) =>
    ({ b with inner := inner.withSink sink b.inner } : Buffered inner.State)
  | .window _ _, s | .batch _ _, s | .adaptive _ _, s => s

/-- Without a sink, a refused sample changes nothing. -/
theorem eq_of_refused {sample : Document} {e : Error} : ∀ {p : Plan} {s s' : p.State}, p.hasWorker = false →
    add sample s = (.error e, s') → p.sink? s = none → s' = s
  | .window _ _, _, _, _, h, _ => Window.eq_of_add_error h
  | .batch _ _, _, _, _, h, _ => Batch.eq_of_add_error h
  | .adaptive _ _, _, _, _, h, _ => Adaptive.eq_of_add_error h
  | .sampling _ inner, _, _, hworker, h, hsink => by
    obtain ⟨inner', hadd, rfl⟩ := Sampling.exists_of_add_error h
    obtain rfl := eq_of_refused (p := inner) hworker hadd hsink
    rfl

/-- After a refused sample a stack is like before, in front of a sink that has taken the same as before and goes on as
it does after. -/
theorem continues_of_refused {sample : Document} {e : Error} {sink : Sink} : ∀ {p : Plan} {s s' : p.State},
    p.hasWorker = false → add sample s = (.error e, s') →
    (∀ before ∈ p.sink? s, sink.contents = before.contents) → (∀ after ∈ p.sink? s', sink.GoesOnAs after) →
      p.Continues [] 0 (p.withSink sink s) s'
  | .window _ _, _, _, _, h, _, _ => (Window.eq_of_add_error h).symm
  | .batch _ _, _, _, _, h, _, _ => (Batch.eq_of_add_error h).symm
  | .adaptive _ _, _, _, _, h, _, _ => (Adaptive.eq_of_add_error h).symm
  | .streaming _ _, _, _, _, h, hbefore, hafter => by
    obtain ⟨after, rfl, hcontents⟩ := Streaming.eq_of_add_error h
    have hsink : sink.Continues [] after := ⟨hafter _ rfl, (hbefore _ rfl).trans hcontents.symm⟩
    exact .of_sink hsink _
  | .adaptiveStreaming _ _, _, _, _, h, hbefore, hafter => by
    obtain ⟨after, rfl, hcontents⟩ := AdaptiveStreaming.eq_of_add_error h
    have hsink : sink.Continues [] after := ⟨hafter _ rfl, (hbefore _ rfl).trans hcontents.symm⟩
    exact ⟨.of_sink hsink _, rfl⟩
  | .sampling _ inner, _, _, hworker, h, hbefore, hafter => by
    obtain ⟨inner', hadd, rfl⟩ := Sampling.exists_of_add_error h
    exact .of_inner (continues_of_refused (p := inner) hworker hadd hbefore hafter)

end Plan

namespace Stack

/-- The stack with another sink in front of it, if it has one. -/
def withSink (sink : Sink) (c : Stack) : Stack :=
  ⟨c.plan, c.plan.withSink sink c.state⟩

/-- A sample that a stack without workers refuses leaves no trace. If the stack has no sink it is as it was before. If
it has one, neither what can be seen nor anything that is asked later tells whether the sample has been there, as long
as the later calls to the sink go alike. -/
theorem refused_leaves_no_trace {c c' : Stack} {sample : Document} {e : Error} (hworker : c.plan.hasWorker = false)
    (hadd : add sample c = (.error e, c')) :
    (c.sink? = none → c' = c) ∧
    ∀ sink : Sink, (∀ before ∈ c.sink?, sink.contents = before.contents) → (∀ after ∈ c'.sink?, sink.GoesOnAs after) →
      c'.view = (c.withSink sink).view ∧ ∀ later, c'.record later = (c.withSink sink).record later := by
  obtain ⟨p, s⟩ := c
  obtain ⟨s', hrefused, rfl⟩ : ∃ s', add sample s = (.error e, s') ∧ c' = ⟨p, s'⟩ :=
    ⟨_, Prod.ext (Prod.mk.inj hadd).1 rfl, (Prod.mk.inj hadd).2.symm⟩
  refine ⟨fun hsink => ?_, fun sink hbefore hafter => ?_⟩
  · obtain rfl := Plan.eq_of_refused hworker hrefused hsink
    rfl
  · have hcontinues : Continues [] 0 (withSink sink ⟨p, s⟩) ⟨p, s'⟩ :=
      .mk (Plan.continues_of_refused hworker hrefused hbefore hafter)
    refine ⟨?_, fun later => ?_⟩
    · rw [hcontinues.view_eq, View.after_nothing]
    · rw [hcontinues.record_eq, record_after_nothing]

/-- A window with room for one sample is full, and the sink refuses its first write. It does not matter that the sample
has been there: the sink has been called once. -/
theorem refused_leaves_no_trace_full :
    let full := (add [("x", .int32 1)] (start (.sampling 0 (.streaming 1 ⟨.stored, 6⟩))
      (.refusing (fun n => n == 0) fun _ => false) .fresh)).2
    (add [("x", .int32 2)] full).1 = .error (.io "sink refused write") ∧
      ∀ later, (add [("x", .int32 2)] full).2.record later =
        (full.withSink ⟨[], 1, 0, fun n => n == 0, fun _ => false⟩).record later := by
  intro full
  have hrefused : (add [("x", .int32 2)] full).1 = .error (.io "sink refused write") := rfl
  have hadd : add [("x", .int32 2)] full = (.error (.io "sink refused write"), (add [("x", .int32 2)] full).2) :=
    Prod.ext hrefused rfl
  have hbefore : full.sink? = some ⟨[], 0, 0, fun n => n == 0, fun _ => false⟩ := rfl
  have hafter : (add [("x", .int32 2)] full).2.sink? = some ⟨[], 1, 0, fun n => n == 0, fun _ => false⟩ := rfl
  have htrace := (refused_leaves_no_trace (c := full) rfl hadd).2 ⟨[], 1, 0, fun n => n == 0, fun _ => false⟩
  rw [hbefore, hafter] at htrace
  refine ⟨hrefused, (htrace ?_ ?_).2⟩
  · simp
  · rintro _ ⟨⟩
    exact .refl _

end Stack

end Telemetry

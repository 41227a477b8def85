import Telemetry.Collector.Config
import Telemetry.Proofs.Collector.Buffered.Run
import Telemetry.Zlib.Stored

/-!
# A queue that cannot be noticed

Batches and adaptive collectors write their metadata document ahead of their first chunk, whenever it comes; so does
an interval of no length, which lets every sample pass (`insensitive_batch`, `insensitive_adaptive`,
`insensitive_sampling`). These are all the collectors that a configuration without an interval puts behind a queue.

A stack with a queue therefore gives back what the stack without it would, whatever producer and worker do and
whenever the signal is given (`Config.buffered_transparent`).
-/

namespace Telemetry

/-! ## Metadata may come late -/

/-- The first of some items is what it is, also when one more comes after them. -/
private theorem modify_push {α : Type} (closed : Array α) (current : α) (f : α → α) :
    (closed.push current).modify 0 f =
      if closed.isEmpty then closed.push (f current) else (closed.modify 0 f).push current := by
  obtain ⟨items⟩ := closed
  cases items with
  | nil => simp
  | cons first items => simp

theorem Window.add_setMetadata (d d' : Document) (w : Window) :
    (w.setMetadata d').add d = ((w.add d).1, (w.add d).2.setMetadata d') := by
  cases hreference : w.reference? with
  | none => simp [Window.add, Window.setMetadata, hreference]
  | some reference =>
    by_cases hfull : w.maxDeltas ≤ w.count
    · simp [Window.add, Window.setMetadata, hreference, hfull]
    · -- whether the sample fits depends on the samples only
      have hschema : (w.setMetadata d').schemaError? (Document.readings d) =
        w.schemaError? (Document.readings d) := rfl
      have hdeltas : (w.setMetadata d').recordDeltas (Document.readings d) =
        w.recordDeltas (Document.readings d) := rfl
      rw [Window.setMetadata, hreference] at hschema hdeltas
      cases hfits : w.schemaError? (Document.readings d) <;>
        simp [Window.add, Window.setMetadata, hreference, hfull, hschema, hdeltas, hfits]

theorem Batch.roll_setMetadata (d : Document) (b : Batch) : (b.setMetadata d).roll = b.roll.setMetadata d := by
  have hinfo : (b.setMetadata d).current.info = b.current.info := by
    rw [Batch.setMetadata]
    split <;> rfl
  have hsize : (b.setMetadata d).maxSamples = b.maxSamples := by
    rw [Batch.setMetadata]
    split <;> rfl
  rw [Batch.roll, Batch.roll, hinfo, hsize]
  split
  · simp only [Batch.setMetadata, Array.isEmpty_push, modify_push]
    split <;> simp
  · rfl

theorem Batch.add_setMetadata (d d' : Document) (b : Batch) :
    (b.setMetadata d').add d = ((b.add d).1, (b.add d).2.setMetadata d') := by
  rw [Batch.add, Batch.add, Batch.roll_setMetadata]
  generalize b.roll = b
  simp only [Batch.setMetadata]
  split
  · simp only [Window.add_setMetadata]
  · rfl

theorem Adaptive.turn_setMetadata (d : Document) (f : Fingerprint) (a : Adaptive) :
    (a.setMetadata d).turn f = (a.turn f).setMetadata d := by
  have hfingerprint : (a.setMetadata d).fingerprint? = a.fingerprint? := by
    rw [Adaptive.setMetadata]
    split <;> rfl
  rw [Adaptive.turn, Adaptive.turn, hfingerprint]
  split
  · split
    · rfl
    · simp only [Adaptive.setMetadata, Array.isEmpty_push, modify_push]
      split <;> simp
  · rfl

theorem Adaptive.add_setMetadata (d d' : Document) (a : Adaptive) :
    (a.setMetadata d').add d = ((a.add d).1, (a.add d).2.setMetadata d') := by
  simp only [Adaptive.add, Adaptive.turn_setMetadata]
  generalize a.turn (Document.fingerprint d) = a
  rcases hadd : a.current.add d with ⟨_ | _, current⟩ <;> by_cases hempty : a.closed.isEmpty <;>
    simp [Adaptive.setMetadata, hempty, hadd, Batch.add_setMetadata]

/-- A collector on which time has no effect, and whose metadata may come late. -/
theorem insensitive_eq {σ : Type} [Collector σ] [Clocked σ]
    (hadd : ∀ (d d' : Document) (s : σ), Collector.add d (Collector.setMetadata d' s) =
      ((Collector.add d s).1, Collector.setMetadata d' (Collector.add d s).2))
    (hresolve : ∀ s : σ, (Collector.resolve s).2 = s) (helapse : ∀ millis (s : σ), Clocked.elapse millis s = s) :
    Insensitive (@Eq σ) where
  symm h := h.symm
  trans h h' := h.trans h'
  add _ h := by rw [h]
  setMetadata _ h := by rw [h]
  add_setMetadata := hadd
  result_eq h := by rw [h]
  resolve h := (hresolve _).trans h
  reset h := by rw [h]
  elapse millis h := (helapse millis _).trans h

theorem insensitive_batch (maxSamples : Nat) (z : Compression) : Insensitive (@Eq (Plan.State (.batch maxSamples z))) :=
  insensitive_eq Batch.add_setMetadata (fun _ => rfl) fun _ _ => rfl

theorem insensitive_adaptive (maxSamples : Nat) (z : Compression) :
    Insensitive (@Eq (Plan.State (.adaptive maxSamples z))) :=
  insensitive_eq Adaptive.add_setMetadata (fun _ => rfl) fun _ _ => rfl

/-- An interval of no length lets every sample pass. -/
theorem Sampling.add_of_interval_zero {σ : Type} [Collector σ] (d : Document) {s : Sampling σ} (h : s.interval = 0) :
    (s.add d).1 = (Collector.add d s.inner).1 ∧ (s.add d).2.interval = 0 ∧
      (s.add d).2.inner = (Collector.add d s.inner).2 := by
  have haccepts : s.accepts = true := by
    rw [accepts, h]
    split <;> simp
  rw [Sampling.add, if_pos haccepts]
  rcases Collector.add d s.inner with ⟨_ | _, inner⟩ <;> exact ⟨rfl, h, rfl⟩

/-- What comes late to a wrapped collector may come late to the interval. -/
theorem Sampling.add_setMetadata {σ : Type} [Collector σ]
    (h : ∀ (d d' : Document) (s : σ), Collector.add d (Collector.setMetadata d' s) =
      ((Collector.add d s).1, Collector.setMetadata d' (Collector.add d s).2))
    (d d' : Document) (s : Sampling σ) :
    Collector.add d (Collector.setMetadata d' s) =
      ((Collector.add d s).1, Collector.setMetadata d' (Collector.add d s).2) := by
  have haccepts : (Collector.setMetadata d' s).accepts = s.accepts := rfl
  have hinner : Collector.add d (Collector.setMetadata d' s).inner =
      ((Collector.add d s.inner).1, Collector.setMetadata d' (Collector.add d s.inner).2) := h d d' s.inner
  show (Collector.setMetadata d' s).add d = ((s.add d).1, Collector.setMetadata d' (s.add d).2)
  rw [Sampling.add, Sampling.add, haccepts, hinner]
  split
  · rcases Collector.add d s.inner with ⟨_ | _, inner⟩ <;> rfl
  · rfl

/-- Two intervals of no length around collectors that are the same. -/
structure Sampling.SameInner {σ : Type} (Same : σ → σ → Prop) (s t : Sampling σ) : Prop where
  interval_eq : s.interval = 0
  interval_eq' : t.interval = 0
  inner : Same s.inner t.inner

theorem insensitive_sampling (p : Plan) {Same : p.State → p.State → Prop} (h : Insensitive Same) (interval : Nat) :
    Insensitive (fun s t : Plan.State (.sampling interval p) => Sampling.SameInner Same s t) where
  symm hs := ⟨hs.interval_eq', hs.interval_eq, h.symm hs.inner⟩
  trans hs ht := ⟨hs.interval_eq, ht.interval_eq', h.trans hs.inner ht.inner⟩
  add {s t} d hs := by
    obtain ⟨-, hzero, hinner⟩ := Sampling.add_of_interval_zero d hs.interval_eq
    obtain ⟨-, hzero', hinner'⟩ := Sampling.add_of_interval_zero d hs.interval_eq'
    refine ⟨hzero, hzero', ?_⟩
    show Same (Sampling.add d s).2.inner (Sampling.add d t).2.inner
    rw [hinner, hinner']
    exact h.add d hs.inner
  setMetadata d hs := ⟨hs.interval_eq, hs.interval_eq', h.setMetadata d hs.inner⟩
  add_setMetadata d d' s := Sampling.add_setMetadata h.add_setMetadata d d' s
  result_eq hs := h.result_eq hs.inner
  resolve hs := ⟨hs.interval_eq, hs.interval_eq', h.resolve hs.inner⟩
  reset hs := ⟨hs.interval_eq, hs.interval_eq', h.reset hs.inner⟩
  elapse millis hs := ⟨hs.interval_eq, hs.interval_eq', h.elapse millis hs.inner⟩

/-! ## Configured stacks -/

/-- What a configuration puts behind a queue is what it builds without one; if it asks for no interval, or for one of
no length, that is insensitive. -/
theorem Config.exists_insensitive {zlib : Compressor} {c : Config} {capacity : Nat} {p : Plan}
    (hplan : c.plan zlib = .buffered capacity p) (hinterval : c.interval?.getD 0 = 0) (sink : Sink) (token : CancelToken) :
    { c with queue? := none }.plan zlib = p ∧
      ∃ Same : p.State → p.State → Prop, Insensitive Same ∧ Same (p.start sink token) (p.start sink token) := by
  obtain ⟨maxSamples, followsSchema, interval?, queue?, z⟩ := c
  cases queue? with
  | none => cases followsSchema <;> cases interval? <;> simp [Config.plan] at hplan
  | some size =>
    cases interval? with
    | none =>
      cases followsSchema with
      | false =>
        obtain ⟨rfl, rfl⟩ := Plan.buffered.inj hplan
        exact ⟨rfl, Eq, insensitive_batch _ _, rfl⟩
      | true =>
        obtain ⟨rfl, rfl⟩ := Plan.buffered.inj hplan
        exact ⟨rfl, Eq, insensitive_adaptive _ _, rfl⟩
    | some interval =>
      cases followsSchema with
      | false =>
        obtain ⟨rfl, rfl⟩ := Plan.buffered.inj hplan
        exact ⟨rfl, _, insensitive_sampling _ (insensitive_batch _ _) interval, hinterval, hinterval, rfl⟩
      | true =>
        obtain ⟨rfl, rfl⟩ := Plan.buffered.inj hplan
        exact ⟨rfl, _, insensitive_sampling _ (insensitive_adaptive _ _) interval, hinterval, hinterval, rfl⟩

open Buffered

/-- What a queue in front of a collector owes to those who use it, after actions of which some events could be
observed.

Every sample that is offered is accepted or refused, but for one that the producer may not be done with. At any moment
the samples that have been applied are the first of those that have been accepted; when something is given back or
begun anew, or the collector is closed, they are all of them.

What is given back is what the collector gives back without the queue, after the operations that have been accepted.
If the wrapped collector has refused samples since the last reset, it is an error that says what was wrong with each,
in order.

In the middle of an operation there is always a step to make, and the number of steps that can be made before the next
operation begins is bounded. -/
structure Buffered.Machine.HandsOn {σ : Type} [Collector σ] [Clocked σ] (inner : σ) (actions : List Action)
    (events : List Event) (m : Machine σ) : Prop where
  offered_eq : actions.flatMap Action.offered = Event.answeredIn events ++ m.producer.offered
  applied_isPrefix : ∀ before after, events = before ++ after → Event.appliedIn before <+: Event.acceptedIn before
  applied_eq : ∀ before event after, events = before ++ event :: after → event.isSettled = true →
    Event.appliedIn before = Event.acceptedIn before
  resolved_eq : ∀ before result after, events = before ++ .resolved result :: after → Event.rejectionsIn before = [] →
    result = (Collector.resolve (Event.unbuffered inner before)).1
  rejected_eq : ∀ before result after, events = before ++ .resolved result :: after → Event.rejectionsIn before ≠ [] →
    ∃ fault, result = .error (.background fault) ∧
      fault.message = "; ".intercalate ((Event.rejectionsIn before).map Error.message)
  exists_step : m.producer ≠ .idle → ∃ action : Action, action.isWork = true ∧ (m.step? action).isSome = true
  exists_bound : ∃ bound, ∀ more events' m', (∀ action ∈ more, action.isBegin = false) →
    m.run? more = some (events', m') → (more.filter Action.isWork).length ≤ bound

/-- A queue in front of a configured stack cannot be noticed, whatever its capacity, whatever operations are made,
whenever the signal is given, and however producer and worker take turns. -/
theorem Config.buffered_transparent {zlib : Compressor} {c : Config} {capacity : Nat} {p : Plan}
    (hplan : c.plan zlib = .buffered capacity p) (hinterval : c.interval?.getD 0 = 0) (sink : Sink) (token : CancelToken)
    {actions : List Action} {events : List Event} {m : Machine p.State}
    (hrun : (Machine.start token capacity (p.start sink token)).run? actions = some (events, m)) :
    { c with queue? := none }.plan zlib = p ∧
    (Machine.start token capacity (p.start sink token)).shared = (Plan.buffered capacity p).start sink token ∧
    m.HandsOn (p.start sink token) actions events := by
  obtain ⟨hunbuffered, Same, hsame, hself⟩ := exists_insensitive hplan hinterval sink token
  have hstart := Machine.consistent_start token capacity (p.start sink token)
  obtain ⟨hm, hpipe⟩ := Machine.run_of_run? hstart hrun
  refine ⟨hunbuffered, rfl, ?_⟩
  exact {
    offered_eq := Machine.offered_of_run? hstart hrun
    applied_isPrefix := by
      rintro before after rfl
      exact hpipe.applied_isPrefix
    applied_eq := by
      rintro before event after rfl hsettled
      exact hpipe.applied_eq hsettled
    resolved_eq := by
      rintro before result after rfl hnone
      rw [hpipe.resolved_eq hsame hself, if_pos hnone]
    rejected_eq := by
      rintro before result after rfl hsome
      rw [hpipe.resolved_eq hsame hself, if_neg hsome]
      exact ⟨_, rfl, rfl⟩
    exists_step := Machine.exists_step hm
    exists_bound := ⟨m.work, fun more events' m' hbegin hmore => by
      have hle := Machine.work_le_of_run? hm hbegin hmore
      omega⟩ }

/-- A queue without room: a sample is in the hands of the worker when the metadata document comes, and another one
is handed over when the signal has been given. -/
theorem Config.buffered_transparent_handed_over :
    ∃ result m,
      (Machine.start .fresh 0 ((Plan.sampling 0 (.batch 300 ⟨.stored, 6⟩)).start Sink.empty .fresh)).run?
          [.add [("x", .int32 1)], .send, .setMetadata [("host", .null)], .add [("x", .int32 2)], .block, .apply,
            .cancel, .notice, .send, .begin .resolve, .collect, .apply, .leave, .join, .applyLeft, .finish] =
        some ([.accepted [("x", .int32 1)], .metadataSet [("host", .null)], .applied [("x", .int32 1)] (.ok ()),
          .accepted [("x", .int32 2)], .applied [("x", .int32 2)] (.ok ())] ++ [.resolved result], m) ∧
      result = (Collector.resolve (Event.unbuffered ((Plan.sampling 0 (.batch 300 ⟨.stored, 6⟩)).start Sink.empty .fresh)
        [.accepted [("x", .int32 1)], .metadataSet [("host", .null)], .accepted [("x", .int32 2)]])).1 := by
  refine Exists.imp (fun result => Exists.imp fun m hrun => ⟨hrun, ?_⟩) ⟨_, _, rfl⟩
  have hplan : Config.plan .stored ⟨300, false, some 0, some 0, 6⟩ =
      .buffered 0 (.sampling 0 (.batch 300 ⟨.stored, 6⟩)) := rfl
  obtain ⟨-, -, hhandsOn⟩ := Config.buffered_transparent hplan rfl Sink.empty .fresh hrun
  have hresolved := hhandsOn.resolved_eq _ result [] rfl rfl
  exact hresolved

end Telemetry

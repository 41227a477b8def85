import Telemetry.Collector.Buffered.Interleaving

/-!
# A line of samples in front of a collector

All that a buffered collector does can be described without queue, worker and signal: samples stand in a line in
front of a collector, those that are accepted join it at the end, and those that are applied leave it at the front
(`Pipe`, `Pipe.Step`). Nothing is given back and nothing is begun anew before the line is empty.

In such a run the samples that have been applied are the first of those accepted, and all of them whenever something
is given back (`Pipe.Run.applied_isPrefix`, `Pipe.Run.applied_eq`). What is given back is what the collector would
give back had every accepted operation been made on it directly (`unbuffered`), provided that the collector does not
mind when a metadata document comes and how time goes by (`Insensitive`, `Pipe.Run.resolved_eq`).
-/

namespace Telemetry

namespace Buffered.Event

/-! ## What has been observed -/

/-- The samples that were accepted, in order. -/
def acceptedIn (events : List Event) : List Document :=
  events.filterMap fun
    | .accepted d => some d
    | _ => none

/-- The samples that reached the wrapped collector, in order. -/
def appliedIn (events : List Event) : List Document :=
  events.filterMap fun
    | .applied d _ => some d
    | _ => none

/-- The samples that were accepted or refused, in order. -/
def answeredIn (events : List Event) : List Document :=
  events.filterMap fun
    | .accepted d => some d
    | .refused d _ => some d
    | _ => none

/-- What is wrong with a sample, if the wrapped collector refused it. -/
def refusal : Except Error Unit → List Error
  | .ok () => []
  | .error e => [e]

/-- What the wrapped collector has refused since the last reset, after one more event. -/
def rejectionsAfter (errors : List Error) : Event → List Error
  | .applied _ result => errors ++ refusal result
  | .wasReset => []
  | _ => errors

/-- What the wrapped collector has refused since the last reset, in order. -/
def rejectionsIn (events : List Event) : List Error :=
  events.foldl rejectionsAfter []

/-- Events that come when all that was accepted has been applied. -/
def isSettled : Event → Bool
  | .resolved _ | .wasReset | .wasClosed => true
  | _ => false

/-- Events that only the producer notices. -/
def isQuiet : Event → Bool
  | .refused _ _ | .told _ => true
  | _ => false

/-- A collector after an operation that was accepted has been made on it directly. -/
def unbufferedAfter {σ : Type} [Collector σ] [Clocked σ] (s : σ) : Event → σ
  | .accepted d => (Collector.add d s).2
  | .metadataSet d => Collector.setMetadata d s
  | .resolved _ => (Collector.resolve s).2
  | .wasReset => Collector.reset s
  | .elapsed millis => Clocked.elapse millis s
  | _ => s

/-- A collector after all operations that were accepted have been made on it directly. -/
def unbuffered {σ : Type} [Collector σ] [Clocked σ] (s : σ) (events : List Event) : σ :=
  events.foldl unbufferedAfter s

end Buffered.Event

open Buffered (Event)

/-! ## The line -/

/-- Samples in a line in front of a collector, accepted and not applied, with what it has refused since the last
reset, in order. -/
structure Pipe (σ : Type) where
  waiting : List Document
  inner : σ
  errors : List Error

namespace Pipe

variable {σ : Type} [Collector σ] [Clocked σ]

/-- What is given back when nothing waits. -/
def result (p : Pipe σ) : Except Error Bytes :=
  if p.errors = [] then (Collector.resolve p.inner).1
  else .error (.background (.rejected (p.errors.map Error.message)))

/-- The pipe after that: a collector that has refused a sample is not asked. -/
def resolved (p : Pipe σ) : Pipe σ :=
  if p.errors = [] then { p with inner := (Collector.resolve p.inner).2 } else p

/-- What can happen to a pipe, and what can be observed of it: at most one event.

A sample joins the line, the first of the line reaches the collector, or a metadata document passes the line by. When
no sample waits, what the collector holds can be given back, it can be begun anew, and the line can be closed. Time
goes by. Something can happen that only the producer notices, or nothing. -/
inductive Step : Pipe σ → List Event → Pipe σ → Prop
  | stutter {p : Pipe σ} : Step p [] p
  | quiet {p : Pipe σ} (event : Event) (h : event.isQuiet = true) : Step p [event] p
  | accept {p : Pipe σ} (d : Document) : Step p [.accepted d] { p with waiting := p.waiting ++ [d] }
  | apply (d : Document) (rest : List Document) (inner : σ) (errors : List Error) :
    Step ⟨d :: rest, inner, errors⟩ [.applied d (Collector.add d inner).1]
      ⟨rest, (Collector.add d inner).2, errors ++ Event.refusal (Collector.add d inner).1⟩
  | setMetadata {p : Pipe σ} (d : Document) :
    Step p [.metadataSet d] { p with inner := Collector.setMetadata d p.inner }
  | resolve {p : Pipe σ} (h : p.waiting = []) : Step p [.resolved p.result] p.resolved
  | reset {p : Pipe σ} (h : p.waiting = []) :
    Step p [.wasReset] { p with inner := Collector.reset p.inner, errors := [] }
  | close {p : Pipe σ} (h : p.waiting = []) : Step p [.wasClosed] p
  | elapse {p : Pipe σ} (millis : Nat) :
    Step p [.elapsed millis] { p with inner := Clocked.elapse millis p.inner }

/-- Steps one after the other, with all that can be observed of them. -/
inductive Run (p : Pipe σ) : List Event → Pipe σ → Prop
  | start : Run p [] p
  | step {events event : List Event} {q r : Pipe σ} : Run p events q → Step q event r → Run p (events ++ event) r

/-- A pipe in front of a collector, nothing waiting. -/
def ofInner (inner : σ) : Pipe σ :=
  ⟨[], inner, []⟩

theorem Step.length_le {p q : Pipe σ} {events : List Event} (h : Step p events q) : events.length ≤ 1 := by
  cases h <;> simp

/-- Where a run stood when something was observed, and what it did. -/
theorem Run.exists_step {p r : Pipe σ} {before after : List Event} {event : Event}
    (h : Run p (before ++ event :: after) r) :
    ∃ q q', Run p before q ∧ Step q [event] q' := by
  generalize hevents : before ++ event :: after = events at h
  induction h generalizing after with
  | start => simp at hevents
  | @step events last q r hrun hstep ih =>
    cases last with
    | nil => exact ih (hevents.trans (List.append_nil _))
    | cons e more =>
      obtain rfl : more = [] := List.eq_nil_of_length_eq_zero (Nat.le_zero.mp (Nat.le_of_succ_le_succ hstep.length_le))
      rcases List.eq_nil_or_concat after with rfl | ⟨after, x, rfl⟩
      · obtain ⟨rfl, hlast⟩ := List.append_inj' hevents rfl
        obtain rfl := List.singleton_inj.mp hlast
        exact ⟨q, r, hrun, hstep⟩
      · rw [List.concat_eq_append, ← List.cons_append, ← List.append_assoc] at hevents
        exact ih (List.append_inj' hevents rfl).1

/-! ## Exactly once, and in order -/

theorem acceptedIn_append (events events' : List Event) :
    Event.acceptedIn (events ++ events') = Event.acceptedIn events ++ Event.acceptedIn events' :=
  List.filterMap_append

theorem appliedIn_append (events events' : List Event) :
    Event.appliedIn (events ++ events') = Event.appliedIn events ++ Event.appliedIn events' :=
  List.filterMap_append

/-- What is accepted joins the line, and what is applied leaves it. -/
theorem Step.waiting_eq {p q : Pipe σ} {events : List Event} (h : Step p events q) :
    p.waiting ++ Event.acceptedIn events = Event.appliedIn events ++ q.waiting := by
  cases h with
  | stutter => simp [Event.acceptedIn, Event.appliedIn]
  | quiet event hquiet =>
    cases event <;> simp [Event.isQuiet] at hquiet <;> simp [Event.acceptedIn, Event.appliedIn]
  | accept d => simp [Event.acceptedIn, Event.appliedIn]
  | apply d rest inner errors => simp [Event.acceptedIn, Event.appliedIn]
  | setMetadata d => simp [Event.acceptedIn, Event.appliedIn]
  | resolve hempty =>
    simp only [resolved]
    split <;> simp [Event.acceptedIn, Event.appliedIn]
  | reset hempty => simp [Event.acceptedIn, Event.appliedIn]
  | close hempty => simp [Event.acceptedIn, Event.appliedIn]
  | elapse millis => simp [Event.acceptedIn, Event.appliedIn]

/-- A step takes a sample in or gives one out, and not both. -/
theorem Step.moves_le {p q : Pipe σ} {events : List Event} (h : Step p events q) :
    (Event.acceptedIn events).length + (Event.appliedIn events).length ≤ 1 := by
  cases h with
  | quiet event hquiet =>
    cases event <;> simp [Event.isQuiet] at hquiet <;> simp [Event.acceptedIn, Event.appliedIn]
  | _ => simp [Event.acceptedIn, Event.appliedIn]

theorem Run.waiting_eq {p q : Pipe σ} {events : List Event} (h : Run p events q) :
    p.waiting ++ Event.acceptedIn events = Event.appliedIn events ++ q.waiting := by
  induction h with
  | start => exact List.append_nil _
  | step _ hstep ih =>
    rw [acceptedIn_append, appliedIn_append, ← List.append_assoc, ih, List.append_assoc, List.append_assoc,
      hstep.waiting_eq]

/-- What has been accepted and not applied waits. -/
theorem Run.accepted_eq {inner : σ} {events : List Event} {p : Pipe σ} (h : Run (ofInner inner) events p) :
    Event.acceptedIn events = Event.appliedIn events ++ p.waiting :=
  h.waiting_eq

/-- At any moment, the samples that have been applied are the first of those that have been accepted. -/
theorem Run.applied_isPrefix {inner : σ} {before after : List Event} {p : Pipe σ}
    (h : Run (ofInner inner) (before ++ after) p) : Event.appliedIn before <+: Event.acceptedIn before := by
  cases after with
  | nil =>
    rw [List.append_nil] at h
    exact ⟨p.waiting, h.accepted_eq.symm⟩
  | cons event after =>
    obtain ⟨q, -, hbefore, -⟩ := h.exists_step
    exact ⟨q.waiting, hbefore.accepted_eq.symm⟩

/-- When something is given back or begun anew, or the line is closed, nothing waits. -/
theorem Step.waiting_eq_nil {p q : Pipe σ} {event : Event} (h : Step p [event] q)
    (hsettled : event.isSettled = true) : p.waiting = [] := by
  cases h with
  | resolve hempty => exact hempty
  | reset hempty => exact hempty
  | close hempty => exact hempty
  | quiet _ hquiet => cases event <;> simp [Event.isQuiet, Event.isSettled] at hquiet hsettled
  | _ => simp [Event.isSettled] at hsettled

/-- Nothing joins the line meanwhile. -/
theorem Step.waiting_eq_nil_after {p q : Pipe σ} {event : Event} (h : Step p [event] q)
    (hsettled : event.isSettled = true) : q.waiting = [] := by
  have haccepted : Event.acceptedIn [event] = [] := by
    cases event with
    | accepted d => exact absurd hsettled Bool.false_ne_true
    | _ => rfl
  have hline := h.waiting_eq
  rw [h.waiting_eq_nil hsettled, haccepted, List.append_nil] at hline
  exact (List.append_eq_nil_iff.mp hline.symm).2

/-- When something is given back or begun anew, or the line is closed, all that was accepted has been applied. -/
theorem Run.applied_eq {inner : σ} {before after : List Event} {event : Event} {p : Pipe σ}
    (h : Run (ofInner inner) (before ++ event :: after) p) (hsettled : event.isSettled = true) :
    Event.appliedIn before = Event.acceptedIn before := by
  obtain ⟨q, q', hbefore, hstep⟩ := h.exists_step
  rw [hbefore.accepted_eq, hstep.waiting_eq_nil hsettled, List.append_nil]

/-! ## Refusals -/

theorem rejectionsIn_append (events events' : List Event) :
    Event.rejectionsIn (events ++ events') = events'.foldl Event.rejectionsAfter (Event.rejectionsIn events) :=
  List.foldl_append

theorem Step.errors_eq {p q : Pipe σ} {events : List Event} (h : Step p events q) :
    events.foldl Event.rejectionsAfter p.errors = q.errors := by
  cases h with
  | quiet event hquiet => cases event <;> simp [Event.isQuiet] at hquiet <;> rfl
  | resolve hempty =>
    simp only [resolved]
    split <;> rfl
  | _ => rfl

/-- What is kept of refusals is what the collector has refused since the last reset. -/
theorem Run.rejections_eq {inner : σ} {events : List Event} {p : Pipe σ} (h : Run (ofInner inner) events p) :
    Event.rejectionsIn events = p.errors := by
  induction h with
  | start => rfl
  | step _ hstep ih => rw [rejectionsIn_append, ih, hstep.errors_eq]

end Pipe

/-! ## The same without the line -/

/-- A collector that does not mind when a metadata document comes and how time goes by: what it gives back depends on
no more of its state than `Same` tells apart. To give back what is held changes nothing. -/
structure Insensitive {σ : Type} [Collector σ] [Clocked σ] (Same : σ → σ → Prop) : Prop where
  symm {s t : σ} : Same s t → Same t s
  trans {s t u : σ} : Same s t → Same t u → Same s u
  add {s t : σ} (d : Document) : Same s t → Same (Collector.add d s).2 (Collector.add d t).2
  setMetadata {s t : σ} (d : Document) : Same s t → Same (Collector.setMetadata d s) (Collector.setMetadata d t)
  add_setMetadata (d d' : Document) (s : σ) :
    Collector.add d (Collector.setMetadata d' s) =
      ((Collector.add d s).1, Collector.setMetadata d' (Collector.add d s).2)
  result_eq {s t : σ} : Same s t → (Collector.resolve s).1 = (Collector.resolve t).1
  resolve {s t : σ} : Same s t → Same (Collector.resolve s).2 t
  reset {s t : σ} : Same s t → Same (Collector.reset s) (Collector.reset t)
  elapse {s t : σ} (millis : Nat) : Same s t → Same (Clocked.elapse millis s) t

namespace Pipe

variable {σ : Type} [Collector σ] [Clocked σ]

/-- A collector after samples have been added. -/
def addAll (s : σ) (samples : List Document) : σ :=
  samples.foldl (fun s d => (Collector.add d s).2) s

omit [Clocked σ] in
theorem addAll_append (s : σ) (samples : List Document) (d : Document) :
    addAll s (samples ++ [d]) = (Collector.add d (addAll s samples)).2 :=
  List.foldl_append

variable {Same : σ → σ → Prop}

theorem addAll_same (hsame : Insensitive Same) {s t : σ} (h : Same s t) (samples : List Document) :
    Same (addAll s samples) (addAll t samples) := by
  induction samples generalizing s t with
  | nil => exact h
  | cons d samples ih => exact ih (hsame.add d h)

/-- A metadata document may as well come after samples that wait. -/
theorem addAll_setMetadata (hsame : Insensitive Same) (d : Document) (s : σ)
    (samples : List Document) :
    addAll (Collector.setMetadata d s) samples = Collector.setMetadata d (addAll s samples) := by
  induction samples generalizing s with
  | nil => rfl
  | cons d' samples ih =>
    rw [addAll, List.foldl_cons, hsame.add_setMetadata]
    exact ih _

/-- The collector behind the line is one that `Same` is about, and follows another one that gets every operation
directly: when the samples that wait have been added, the two are the same. -/
structure Follows (Same : σ → σ → Prop) (p : Pipe σ) (s : σ) : Prop where
  self : Same p.inner p.inner
  same : Same (addAll p.inner p.waiting) s

/-- Every step of a pipe keeps to the collector that gets every operation directly. -/
theorem Step.follows (hsame : Insensitive Same) {p q : Pipe σ} {events : List Event} (h : Step p events q) {s : σ}
    (hs : p.Follows Same s) : q.Follows Same (Event.unbuffered s events) := by
  cases h with
  | stutter => exact hs
  | quiet event hquiet =>
    cases event <;> simp [Event.isQuiet] at hquiet <;> exact hs
  | accept d =>
    refine ⟨hs.self, ?_⟩
    rw [addAll_append]
    exact hsame.add d hs.same
  | apply d rest inner errors => exact ⟨hsame.add d hs.self, hs.same⟩
  | setMetadata d =>
    refine ⟨hsame.setMetadata d hs.self, ?_⟩
    rw [addAll_setMetadata hsame]
    exact hsame.setMetadata d hs.same
  | resolve hempty =>
    have hdirect : Same p.inner (Collector.resolve s).2 := by
      have hsame' := hs.same
      rw [hempty] at hsame'
      exact hsame.symm (hsame.resolve (hsame.symm hsame'))
    rw [resolved]
    split
    · refine ⟨hsame.resolve (hsame.symm (hsame.resolve hs.self)), ?_⟩
      rw [hempty]
      exact hsame.resolve hdirect
    · refine ⟨hs.self, ?_⟩
      rw [hempty]
      exact hdirect
  | reset hempty =>
    refine ⟨hsame.reset hs.self, ?_⟩
    have hsame' := hs.same
    rw [hempty] at hsame' ⊢
    exact hsame.reset hsame'
  | close hempty => exact hs
  | elapse millis =>
    have hself : Same (Clocked.elapse millis p.inner) p.inner := hsame.elapse millis hs.self
    refine ⟨hsame.trans hself (hsame.symm hself), ?_⟩
    have hlater : Same (Clocked.elapse millis s) (addAll p.inner p.waiting) :=
      hsame.elapse millis (hsame.symm hs.same)
    exact hsame.trans (addAll_same hsame hself p.waiting) (hsame.symm hlater)

theorem Run.follows (hsame : Insensitive Same) {inner : σ} (hself : Same inner inner) {events : List Event}
    {p : Pipe σ} (h : Run (ofInner inner) events p) : p.Follows Same (Event.unbuffered inner events) := by
  induction h with
  | start => exact ⟨hself, hself⟩
  | step _ hstep ih =>
    rw [Event.unbuffered, List.foldl_append]
    exact hstep.follows hsame ih

/-- What is given back is what the collector would give back without the line; or, if it has refused samples since
the last reset, what was wrong with them. -/
theorem Run.resolved_eq (hsame : Insensitive Same) {inner : σ} (hself : Same inner inner)
    {before after : List Event} {result : Except Error Bytes} {p : Pipe σ}
    (h : Run (ofInner inner) (before ++ .resolved result :: after) p) :
    result =
      if Event.rejectionsIn before = [] then (Collector.resolve (Event.unbuffered inner before)).1
      else .error (.background (.rejected ((Event.rejectionsIn before).map Error.message))) := by
  obtain ⟨q, q', hbefore, hstep⟩ := h.exists_step
  have hfollows := hbefore.follows hsame hself
  have hempty := hstep.waiting_eq_nil rfl
  have hsame' := hfollows.same
  rw [hempty] at hsame'
  rw [hbefore.rejections_eq]
  cases hstep with
  | quiet _ hquiet => simp [Event.isQuiet] at hquiet
  | resolve =>
    rw [Pipe.result]
    split
    · exact hsame.result_eq hsame'
    · rfl

end Pipe

end Telemetry

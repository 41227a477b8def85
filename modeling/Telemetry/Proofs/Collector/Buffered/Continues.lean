import Telemetry.Collector.Buffered.Interleaving
import Telemetry.Proofs.Collector.Continues

/-!
# Producers and workers that go on alike

Of two machines whose producers and workers stand at the same places, with the same messages in hand and in the queues,
the wrapped collectors may differ, as long as they are in a relation that every operation respects. Then what can be
done next with one can be done with the other, the same can be observed of it, and the machines are in the same relation
afterwards (`Machine.Continues.step?`); and so it is with everything that is done later (`Machine.Continues.run?`).
-/

namespace Telemetry.Buffered

variable {σ : Type} {R : σ → σ → Prop}

/-! ## Machines that go on alike -/

/-- Whether the producer makes a request or waits for the answer. -/
def ProducerState.asks : ProducerState → Bool
  | .flushing _ | .awaiting _ => true
  | _ => false

/-- Producers and workers stand at the same places, with the same messages in hand, and what is behind the queues is
related. Whether an earlier request has been answered makes no difference. -/
structure Machine.Continues (R : σ → σ → Prop) (m n : Machine σ) : Prop where
  shared : m.shared.Continues R n.shared
  worker_eq : m.worker = n.worker
  producer_eq : m.producer = n.producer
  isAnswered_eq : m.producer.asks = true → m.isAnswered = n.isAnswered

/-- Either both things cannot be done, or both can, with the same to be observed. -/
def Machine.GoAlike (R : σ → σ → Prop) : Option (List Event × Machine σ) → Option (List Event × Machine σ) → Prop :=
  Option.Rel fun r r' => r.1 = r'.1 ∧ r.2.Continues R r'.2

namespace Machine

variable {m n : Machine σ}

/-- Producers that do not ask do not mind whether an earlier request has been answered. -/
theorem continues_of_silent (hshared : m.shared.Continues R n.shared) (hworker : m.worker = n.worker)
    (hproducer : m.producer = n.producer) (hsilent : m.producer.asks = false) : m.Continues R n :=
  ⟨hshared, hworker, hproducer, fun hasks => absurd (hsilent.symm.trans hasks) Bool.false_ne_true⟩

/-- The producers go on to a place where they do not ask. -/
theorem Continues.producerAt (h : m.Continues R n) {p : ProducerState} (hp : p.asks = false) :
    (m.producerAt p).Continues R (n.producerAt p) :=
  continues_of_silent h.shared h.worker_eq rfl hp

theorem Continues.hasEnded_eq (h : m.Continues R n) : m.hasEnded = n.hasEnded := by
  rw [hasEnded, hasEnded, h.worker_eq]

/-- The worker goes on, and all else stays. -/
theorem Continues.workerAt (h : m.Continues R n) (w : WorkerState) :
    Continues R { m with worker := w } { n with worker := w } :=
  ⟨h.shared, rfl, h.producer_eq, h.isAnswered_eq⟩

/-- Producers that have sent a message stand where they stood. -/
theorem Continues.offer? (h : m.Continues R n) (message : Message) :
    Option.Rel (fun m' n' => m'.Continues R n' ∧ m'.producer = m.producer) (m.offer? message) (n.offer? message) := by
  rw [Machine.offer?, Machine.offer?, h.shared.queue_eq, h.shared.capacity_eq, h.worker_eq]
  split
  · have hshared := h.shared.modify (push message) fun _ _ => rfl
    exact .some ⟨⟨hshared, rfl, h.producer_eq, h.isAnswered_eq⟩, rfl⟩
  · split
    · split
      · exact .some ⟨h.workerAt _, rfl⟩
      · exact .none
    · exact .none

theorem Continues.handOver? (h : m.Continues R n) (message : Message) :
    Option.Rel (fun m' n' => m'.Continues R n' ∧ m'.producer = m.producer)
      (m.handOver? message) (n.handOver? message) := by
  have hoffer := h.offer? message
  rw [Machine.handOver?, Machine.handOver?, h.shared.capacity_eq, h.worker_eq]
  split
  · split
    · exact .some ⟨h.workerAt _, rfl⟩
    · exact hoffer
  · exact hoffer

theorem Continues.add? (h : m.Continues R n) (d : Document) : GoAlike R (m.add? d) (n.add? d) := by
  rw [Machine.add?, Machine.add?, h.producer_eq, h.shared.token_eq, h.shared.isOpen_eq]
  split
  · split
    · exact .some ⟨rfl, h⟩
    · split
      · exact .some ⟨rfl, continues_of_silent (h.shared.modify count fun _ _ => rfl) h.worker_eq rfl rfl⟩
      · exact .some ⟨rfl, h⟩
  · exact .none

theorem GoAlike.events_eq {r r' : Option (List Event × Machine σ)} (h : GoAlike R r r') :
    r.map Prod.fst = r'.map Prod.fst := by
  cases h with
  | some h => exact congrArg some h.1
  | none => rfl

/-- What follows on things that go alike goes alike if it does so for each of their results. -/
theorem GoAlike.bind {α : Type} {S : α → α → Prop} {a b : Option α} (h : Option.Rel S a b)
    {f g : α → Option (List Event × Machine σ)} (hfg : ∀ {a b}, S a b → GoAlike R (f a) (g b)) :
    GoAlike R (a.bind f) (b.bind g) := by
  cases h with
  | some h => exact hfg h
  | none => exact .none

theorem Continues.send? (h : m.Continues R n) : GoAlike R m.send? n.send? := by
  rw [Machine.send?, Machine.send?, h.producer_eq]
  simp only [Option.map_eq_bind]
  split
  · exact .bind (h.offer? _) fun hsent => .some ⟨rfl, hsent.1.producerAt rfl⟩
  · exact .bind (h.handOver? _) fun hsent => .some ⟨rfl, hsent.1.producerAt rfl⟩
  · next p hflushing =>
    -- the answer that is now awaited has been given to neither
    refine .bind (h.handOver? _) fun hsent => .some ⟨rfl, hsent.1.shared, hsent.1.worker_eq, rfl, fun _ => ?_⟩
    refine hsent.1.isAnswered_eq ?_
    rw [hsent.2, h.producer_eq, hflushing]
    rfl
  · exact .none

theorem Continues.block? (h : m.Continues R n) : GoAlike R m.block? n.block? := by
  rw [Machine.block?, Machine.block?, h.producer_eq, h.shared.queue_eq, h.shared.capacity_eq]
  split
  · split
    · exact .some ⟨rfl, h.producerAt rfl⟩
    · exact .none
  · exact .none

theorem Continues.stopWaiting? (h : m.Continues R n) (e : Error) :
    GoAlike R (m.stopWaiting? e) (n.stopWaiting? e) := by
  rw [Machine.stopWaiting?, Machine.stopWaiting?, h.producer_eq]
  split
  · exact .some ⟨rfl, h.producerAt rfl⟩
  · exact .some ⟨rfl, h.producerAt rfl⟩
  · exact .some ⟨rfl, h.producerAt rfl⟩
  · exact .none

theorem Continues.giveBack? (h : m.Continues R n) : GoAlike R m.giveBack? n.giveBack? := by
  have hshared := h.shared.modify Buffered.giveBack fun _ _ => rfl
  rw [Machine.giveBack?, Machine.giveBack?, h.producer_eq]
  split
  · dsimp only
    rw [hshared.token_eq]
    split
    · exact .some ⟨rfl, continues_of_silent hshared h.worker_eq rfl rfl⟩
    · exact .some ⟨rfl, continues_of_silent hshared h.worker_eq rfl rfl⟩
  · exact .none

theorem Continues.join? (h : m.Continues R n) : GoAlike R m.join? n.join? := by
  rw [Machine.join?, Machine.join?, h.producer_eq, h.hasEnded_eq, h.shared.queue_eq]
  split
  · split
    · have hshared := h.shared.modify (fun b => { b with queue := [], isJoined := true }) fun _ _ => rfl
      exact .some ⟨rfl, continues_of_silent hshared h.worker_eq rfl rfl⟩
    · exact .none
  · exact .none

theorem Continues.tell? (h : m.Continues R n) : GoAlike R m.tell? n.tell? := by
  rw [Machine.tell?, Machine.tell?, h.producer_eq]
  split
  · exact .some ⟨by rw [h.shared.withPending_eq], h.producerAt rfl⟩
  · exact .none

/-- A worker takes the first message of the queue. -/
theorem Continues.setQueue (h : m.Continues R n) (w : WorkerState) (queue : List Message) :
    Continues R { m with worker := w, shared := { m.shared with queue } }
      { n with worker := w, shared := { n.shared with queue } } :=
  ⟨h.shared.modify (fun b => { b with queue }) fun _ _ => rfl, rfl, h.producer_eq, h.isAnswered_eq⟩

theorem Continues.take? (h : m.Continues R n) : GoAlike R m.take? n.take? := by
  rw [Machine.take?, Machine.take?, h.worker_eq, h.shared.queue_eq]
  split
  · exact .some ⟨rfl, h.setQueue _ _⟩
  · exact .none

theorem Continues.notice? (h : m.Continues R n) : GoAlike R m.notice? n.notice? := by
  rw [Machine.notice?, Machine.notice?, h.worker_eq, h.shared.token_eq]
  split
  · split
    · exact .some ⟨rfl, h.workerAt _⟩
    · exact .none
  · exact .none

theorem Continues.collect? (h : m.Continues R n) : GoAlike R m.collect? n.collect? := by
  rw [Machine.collect?, Machine.collect?, h.worker_eq, h.shared.queue_eq]
  split
  · exact .some ⟨rfl, h.setQueue _ _⟩
  · exact .some ⟨rfl, h.workerAt _⟩
  · exact .none

theorem Continues.leave? (h : m.Continues R n) : GoAlike R m.leave? n.leave? := by
  rw [Machine.leave?, Machine.leave?, h.worker_eq, h.shared.queue_eq, h.shared.isOpen_eq]
  split
  · exact .some ⟨rfl, h.workerAt _⟩
  · split
    · exact .some ⟨rfl, h.workerAt _⟩
    · exact .none
  · exact .none

theorem GoAlike.whenIdle (h : m.Continues R n) {r r' : List Event × Machine σ} (hevents : r.1 = r'.1)
    (hmn : r.2.Continues R r'.2) : GoAlike R (m.whenIdle r) (n.whenIdle r') := by
  rw [Machine.whenIdle, Machine.whenIdle, h.producer_eq]
  split
  · exact .some ⟨hevents, hmn⟩
  · exact .none

theorem Continues.began (h : m.Continues R n) (p : Purpose) : (m.began p).Continues R (n.began p) := by
  have hclosed := h.shared.modify (fun b => { b with isOpen := false }) fun _ _ => rfl
  rw [Machine.began.eq_def, Machine.began.eq_def, h.shared.token_eq, h.shared.isOpen_eq]
  split
  · exact continues_of_silent hclosed h.worker_eq rfl rfl
  · split
    · exact h.producerAt rfl
    · split
      · exact ⟨h.shared, h.worker_eq, rfl, fun _ => rfl⟩
      · exact h.producerAt rfl

variable [Collector σ]

theorem Continues.applied (hR : Collector.Respects R) (h : m.Continues R n) (message : Message) :
    Event.ofMessage m.shared.inner message = Event.ofMessage n.shared.inner message ∧
      (m.applied message).Continues R (n.applied message) := by
  refine ⟨?_, h.shared.applyMessage hR message, h.worker_eq, h.producer_eq, fun hasks => ?_⟩
  · cases message with
    | flush => rfl
    | sample d =>
      obtain ⟨result, c, d', hc, hd, -⟩ := hR.add h.shared.inner d
      rw [Event.ofMessage, Event.ofMessage, hc, hd]
  · exact congrArg (· || message.isFlush) (h.isAnswered_eq hasks)

theorem Continues.applyLeft? (hR : Collector.Respects R) (h : m.Continues R n) :
    GoAlike R m.applyLeft? n.applyLeft? := by
  rw [Machine.applyLeft?, Machine.applyLeft?, h.producer_eq]
  split
  · obtain ⟨hevents, happlied⟩ := h.applied hR _
    exact .some ⟨hevents, happlied.producerAt rfl⟩
  · exact .some ⟨rfl, h.producerAt rfl⟩
  · exact .none

theorem Continues.applyHeld? (hR : Collector.Respects R) (h : m.Continues R n) :
    GoAlike R m.applyHeld? n.applyHeld? := by
  rw [Machine.applyHeld?, Machine.applyHeld?, h.worker_eq]
  split
  · obtain ⟨hevents, happlied⟩ := h.applied hR _
    exact .some ⟨hevents, happlied.workerAt _⟩
  · obtain ⟨hevents, happlied⟩ := h.applied hR _
    exact .some ⟨hevents, happlied.workerAt _⟩
  · exact .none

theorem Continues.finished (hR : Collector.Respects R) (h : m.Continues R n) (p : Purpose) :
    (m.finished p).1 = (n.finished p).1 ∧ (m.finished p).2.Continues R (n.finished p).2 := by
  cases p with
  | resolve =>
    obtain ⟨result, b, c, hb, hc, hbc⟩ := h.shared.resolveSettled hR
    rw [Machine.finished, Machine.finished, hb, hc]
    exact ⟨rfl, continues_of_silent hbc h.worker_eq rfl rfl⟩
  | reset => exact ⟨rfl, continues_of_silent (h.shared.resetSettled hR) h.worker_eq rfl rfl⟩
  | close => exact ⟨rfl, h.producerAt rfl⟩
  | refuse d e => exact ⟨rfl, h.producerAt rfl⟩

variable [Clocked σ]

/-- What can be done next can be done with both, with the same to be observed. -/
theorem Continues.step? (hR : Collector.Respects R)
    (htime : ∀ millis {c d}, R c d → R (Clocked.elapse millis c) (Clocked.elapse millis d))
    (h : m.Continues R n) (action : Action) : GoAlike R (m.step? action) (n.step? action) := by
  cases action with
  | add d => exact h.add? d
  | send => exact h.send?
  | block => exact h.block?
  | heedSignal =>
    rw [Machine.step?, Machine.step?, h.shared.token_eq]
    split
    · exact h.stopWaiting? _
    · exact .none
  | heedEnd =>
    rw [Machine.step?, Machine.step?, h.hasEnded_eq]
    split
    · exact h.stopWaiting? _
    · exact .none
  | giveBack => exact h.giveBack?
  | setMetadata d =>
    have hset := h.shared.setInner (hR.setMetadata h.shared.inner d)
    exact .whenIdle h rfl ⟨hset, h.worker_eq, h.producer_eq, h.isAnswered_eq⟩
  | info =>
    rw [Machine.step?, Machine.step?, hR.info h.shared.inner]
    exact .whenIdle h rfl (h.producerAt rfl)
  | tell => exact h.tell?
  | begin p =>
    have hbegan := h.began p
    cases p with
    | refuse d e => exact .none
    | _ => exact .whenIdle h rfl hbegan
  | receiveAnswer =>
    rw [Machine.step?, Machine.step?]
    have hsame := h.isAnswered_eq
    rw [h.producer_eq] at hsame ⊢
    split
    · next p hawaiting =>
      rw [hsame (by rw [hawaiting]; rfl)]
      split
      · exact .some ⟨rfl, h.producerAt rfl⟩
      · exact .none
    · exact .none
  | join => exact h.join?
  | applyLeft => exact h.applyLeft? hR
  | finish =>
    rw [Machine.step?, Machine.step?, h.producer_eq]
    split
    · exact .some (h.finished hR _)
    · exact .none
  | take => exact h.take?
  | apply => exact h.applyHeld? hR
  | notice => exact h.notice?
  | collect => exact h.collect?
  | leave => exact h.leave?
  | cancel =>
    have hcancelled := h.shared.modify Buffered.cancel fun _ _ => rfl
    exact .some ⟨rfl, hcancelled, h.worker_eq, h.producer_eq, h.isAnswered_eq⟩
  | elapse millis =>
    exact .some ⟨rfl, h.shared.setInner (htime millis h.shared.inner), h.worker_eq, h.producer_eq, h.isAnswered_eq⟩

/-- Whatever producer, worker and surroundings do next, and in whatever order, the same can be observed. -/
theorem Continues.run? (hR : Collector.Respects R)
    (htime : ∀ millis {c d}, R c d → R (Clocked.elapse millis c) (Clocked.elapse millis d))
    (h : m.Continues R n) (actions : List Action) : GoAlike R (m.run? actions) (n.run? actions) := by
  induction actions generalizing m n with
  | nil => exact .some ⟨rfl, h⟩
  | cons action actions ih =>
    rw [Machine.run?, Machine.run?]
    refine .bind (h.step? hR htime action) fun hnext => ?_
    exact .bind (ih hnext.2) fun hrest => .some ⟨congrArg₂ _ hnext.1 hrest.1, hrest.2⟩

end Machine

end Telemetry.Buffered

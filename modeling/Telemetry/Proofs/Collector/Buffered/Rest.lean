import Telemetry.Proofs.Collector.Built
import Telemetry.Proofs.Collector.Buffered.Run

/-!
# A queue that has come to rest

What is pending of a buffered collector is on its way: in the queue, in the hands of producer or worker, or counted and
not yet sent. As long as the collector has neither been cancelled nor closed its worker serves, and has not been waited
for. All this holds at any moment (`Machine.Sound`, `Machine.Sound.of_run?`).

When an operation is finished nothing is on its way. So at the end of a reset there is nothing left in queue, worker and
counts, but for what is kept of refusals, and that is forgotten (`Machine.Sound.eq_of_reset`).
-/

namespace Telemetry

/-! ## What the wrapped collector keeps -/

/-- What every operation of the wrapped collector keeps, and time, holds behind a line of samples. -/
theorem Pipe.Run.keeps {σ : Type} [Collector σ] [Clocked σ] {P : σ → Prop} (h : Collector.Keeps P)
    (htime : ∀ millis {c}, P c → P (Clocked.elapse millis c)) {p q : Pipe σ} {events : List Buffered.Event}
    (hrun : p.Run events q) (hp : P p.inner) : P q.inner := by
  induction hrun with
  | start => exact hp
  | step _ hstep ih =>
    cases hstep with
    | stutter | quiet | accept | close => exact ih
    | apply d rest inner errors => exact h.add ih d
    | setMetadata d => exact h.setMetadata ih d
    | resolve hempty =>
      rw [resolved]
      split
      · exact h.resolve ih
      · exact ih
    | reset hempty => exact h.reset ih
    | elapse millis => exact htime millis ih

/-! ## Samples on their way -/

/-- How many samples a message is. -/
def Message.weight : Message → Nat
  | .sample _ => 1
  | .flush => 0

namespace Buffered

/-- How many samples are among the messages. -/
def samplesIn (messages : List Message) : Nat :=
  (messages.map Message.weight).sum

@[simp] theorem samplesIn_nil : samplesIn [] = 0 :=
  rfl

@[simp] theorem samplesIn_cons (message : Message) (messages : List Message) :
    samplesIn (message :: messages) = message.weight + samplesIn messages :=
  rfl

@[simp] theorem samplesIn_append (messages messages' : List Message) :
    samplesIn (messages ++ messages') = samplesIn messages + samplesIn messages' := by
  simp [samplesIn]

/-- How many samples the producer has counted and not sent. -/
def ProducerState.unsent : ProducerState → Nat
  | .counted _ | .blocked _ | .returning _ _ => 1
  | _ => 0

/-- Whether the worker does what it does while there is no end to come. -/
def WorkerState.isServing : WorkerState → Bool
  | .waiting | .holding _ => true
  | _ => false

namespace Machine

variable {σ : Type} {capacity : Nat} {m m' : Machine σ}

/-- How many samples have been counted and not applied. -/
def onTheWay (m : Machine σ) : Nat :=
  samplesIn m.worker.inHand + samplesIn m.shared.queue + samplesIn m.producer.inHand + m.producer.unsent

/-- The collector has neither been cancelled nor closed. -/
def IsRunning (m : Machine σ) : Prop :=
  m.shared.token.isCancelled = false ∧ m.shared.isOpen = true

/-- What holds of the counts and signals of a machine at any moment: what is pending is on its way, and a worker does
not end by itself. -/
structure Sound (capacity : Nat) (m : Machine σ) : Prop where
  capacity_eq : m.shared.capacity = capacity
  pending_eq : m.shared.pending = m.onTheWay
  serves : m.IsRunning → m.worker.isServing = true ∧ m.shared.isJoined = false

theorem sound_start (token : CancelToken) (capacity : Nat) (inner : σ) :
    (start token capacity inner).Sound capacity :=
  ⟨rfl, rfl, fun _ => ⟨rfl, rfl⟩⟩

namespace Sound

/-- The producer goes on with the samples that it has. -/
theorem producerAt (h : m.Sound capacity) {p : ProducerState}
    (hp : samplesIn p.inHand + p.unsent = samplesIn m.producer.inHand + m.producer.unsent) :
    (m.producerAt p).Sound capacity := by
  refine ⟨h.capacity_eq, ?_, h.serves⟩
  have hpending := h.pending_eq
  simp only [onTheWay, Machine.producerAt] at hpending ⊢
  omega

/-- The worker goes on, taking what it takes from the queue. -/
theorem shift (h : m.Sound capacity) {w : WorkerState} {queue : List Message}
    (hw : samplesIn w.inHand + samplesIn queue = samplesIn m.worker.inHand + samplesIn m.shared.queue)
    (hserves : m.IsRunning → w.isServing = true) :
    Sound capacity { m with worker := w, shared := { m.shared with queue } } := by
  refine ⟨h.capacity_eq, ?_, fun hrunning => ⟨hserves hrunning, (h.serves hrunning).2⟩⟩
  have hpending := h.pending_eq
  simp only [onTheWay] at hpending ⊢
  omega

theorem not_running (h : m.Sound capacity) (hw : m.worker.isServing = false) : ¬ m.IsRunning := fun hrunning =>
  absurd (hw.symm.trans (h.serves hrunning).1) Bool.false_ne_true

theorem of_take? (h : m.Sound capacity) {result : List Event × Machine σ} (hstep : m.take? = some result) :
    result.2.Sound capacity := by
  unfold take? at hstep
  split at hstep
  · next message queue hworker hqueue =>
    obtain rfl := Option.some.inj hstep
    exact h.shift (by simp [hworker, hqueue, WorkerState.inHand]) fun _ => rfl
  · exact absurd hstep (by simp)

theorem of_notice? (h : m.Sound capacity) {result : List Event × Machine σ} (hstep : m.notice? = some result) :
    result.2.Sound capacity := by
  unfold notice? at hstep
  split at hstep
  · next hworker =>
    split at hstep
    · next hcancelled =>
      obtain rfl := Option.some.inj hstep
      refine h.shift (by simp [hworker, WorkerState.inHand]) fun hrunning => ?_
      exact absurd (hrunning.1.symm.trans hcancelled) Bool.false_ne_true
    · exact absurd hstep (by simp)
  · exact absurd hstep (by simp)

theorem of_collect? (h : m.Sound capacity) {result : List Event × Machine σ} (hstep : m.collect? = some result) :
    result.2.Sound capacity := by
  unfold collect? at hstep
  split at hstep
  · next taken message queue hworker hqueue =>
    obtain rfl := Option.some.inj hstep
    refine h.shift (by simp [hworker, hqueue, WorkerState.inHand]; omega) fun hrunning => ?_
    exact absurd hrunning (h.not_running (by rw [hworker]; rfl))
  · next taken hworker hqueue =>
    obtain rfl := Option.some.inj hstep
    refine h.shift (by simp [hworker, hqueue, WorkerState.inHand]) fun hrunning => ?_
    exact absurd hrunning (h.not_running (by rw [hworker]; rfl))
  · exact absurd hstep (by simp)

theorem of_leave? (h : m.Sound capacity) {result : List Event × Machine σ} (hstep : m.leave? = some result) :
    result.2.Sound capacity := by
  unfold leave? at hstep
  split at hstep
  · next hworker =>
    obtain rfl := Option.some.inj hstep
    refine h.shift (by simp [hworker, WorkerState.inHand]) fun hrunning => ?_
    exact absurd hrunning (h.not_running (by rw [hworker]; rfl))
  · next hworker =>
    split at hstep
    · next hclosed =>
      obtain rfl := Option.some.inj hstep
      refine h.shift (by simp [hworker, WorkerState.inHand]) fun hrunning => ?_
      simp [hrunning.2] at hclosed
    · exact absurd hstep (by simp)
  · exact absurd hstep (by simp)

/-- What is sent has been counted before. -/
theorem of_sent (h : m.Sound capacity) {message : Message} (hunsent : m.producer.unsent = message.weight)
    (hhand : m.producer.inHand = [])
    (hsent : m.offer? message = some m' ∨ m.handOver? message = some m') {p : ProducerState}
    (hp : samplesIn p.inHand + p.unsent = 0) : (m'.producerAt p).Sound capacity := by
  have hpending := h.pending_eq
  have hoffered : m.offer? message = some m' → (m'.producerAt p).Sound capacity := by
    intro hoffer
    unfold offer? at hoffer
    split at hoffer
    · obtain rfl := Option.some.inj hoffer
      refine ⟨h.capacity_eq, ?_, h.serves⟩
      simp [onTheWay, Machine.producerAt, push, hhand] at hpending ⊢
      omega
    · split at hoffer
      · split at hoffer
        · next hworker =>
          obtain rfl := Option.some.inj hoffer
          refine ⟨h.capacity_eq, ?_, fun hrunning => ⟨rfl, (h.serves hrunning).2⟩⟩
          simp [onTheWay, Machine.producerAt, hhand, hworker, WorkerState.inHand] at hpending ⊢
          omega
        · exact absurd hoffer (by simp)
      · exact absurd hoffer (by simp)
  rcases hsent with hsent | hsent
  · exact hoffered hsent
  · unfold handOver? at hsent
    split at hsent
    · next taken hworker =>
      split at hsent
      · obtain rfl := Option.some.inj hsent
        refine ⟨h.capacity_eq, ?_, fun hrunning => ?_⟩
        · simp [onTheWay, Machine.producerAt, hhand, hworker, WorkerState.inHand] at hpending ⊢
          omega
        · exact absurd hrunning (h.not_running (by rw [hworker]; rfl))
      · exact hoffered hsent
    · exact hoffered hsent

theorem of_send? (h : m.Sound capacity) {result : List Event × Machine σ} (hstep : m.send? = some result) :
    result.2.Sound capacity := by
  unfold send? at hstep
  split at hstep
  · next d hproducer =>
    obtain ⟨n, hn, rfl⟩ := Option.map_eq_some_iff.mp hstep
    exact h.of_sent (by rw [hproducer]; rfl) (by rw [hproducer]; rfl) (.inl hn) rfl
  · next d hproducer =>
    obtain ⟨n, hn, rfl⟩ := Option.map_eq_some_iff.mp hstep
    exact h.of_sent (by rw [hproducer]; rfl) (by rw [hproducer]; rfl) (.inr hn) rfl
  · next p hproducer =>
    obtain ⟨n, hn, rfl⟩ := Option.map_eq_some_iff.mp hstep
    exact h.of_sent (by rw [hproducer]; rfl) (by rw [hproducer]; rfl) (.inr hn) rfl
  · exact absurd hstep (by simp)

theorem of_add? (h : m.Sound capacity) {d : Document} {result : List Event × Machine σ}
    (hstep : m.add? d = some result) : result.2.Sound capacity := by
  unfold add? at hstep
  split at hstep
  · next hproducer =>
    split at hstep
    · obtain rfl := Option.some.inj hstep
      exact h
    · split at hstep
      · obtain rfl := Option.some.inj hstep
        have hpending := h.pending_eq
        refine ⟨h.capacity_eq, ?_, h.serves⟩
        simp [onTheWay, count, hproducer, ProducerState.unsent, ProducerState.inHand] at hpending ⊢
        omega
      · obtain rfl := Option.some.inj hstep
        exact h
  · exact absurd hstep (by simp)

theorem of_block? (h : m.Sound capacity) {result : List Event × Machine σ} (hstep : m.block? = some result) :
    result.2.Sound capacity := by
  unfold block? at hstep
  split at hstep
  · next d hproducer =>
    split at hstep
    · obtain rfl := Option.some.inj hstep
      exact h.producerAt (by rw [hproducer]; rfl)
    · exact absurd hstep (by simp)
  · exact absurd hstep (by simp)

theorem of_stopWaiting? (h : m.Sound capacity) {e : Error} {result : List Event × Machine σ}
    (hstep : m.stopWaiting? e = some result) : result.2.Sound capacity := by
  unfold stopWaiting? at hstep
  split at hstep
  · next d hproducer =>
    obtain rfl := Option.some.inj hstep
    exact h.producerAt (by rw [hproducer]; rfl)
  · next p hproducer =>
    obtain rfl := Option.some.inj hstep
    exact h.producerAt (by rw [hproducer]; rfl)
  · next p hproducer =>
    obtain rfl := Option.some.inj hstep
    exact h.producerAt (by rw [hproducer]; rfl)
  · exact absurd hstep (by simp)

theorem of_tell? (h : m.Sound capacity) {result : List Event × Machine σ} (hstep : m.tell? = some result) :
    result.2.Sound capacity := by
  unfold tell? at hstep
  split at hstep
  · next held hproducer =>
    obtain rfl := Option.some.inj hstep
    exact h.producerAt (by rw [hproducer]; rfl)
  · exact absurd hstep (by simp)

/-- What is given back has been counted before. -/
theorem of_giveBack? (h : m.Sound capacity) {result : List Event × Machine σ} (hstep : m.giveBack? = some result) :
    result.2.Sound capacity := by
  unfold giveBack? at hstep
  split at hstep
  · next d e hproducer =>
    have hpending := h.pending_eq
    have hback : ∀ p : ProducerState, samplesIn p.inHand + p.unsent = 0 →
        Sound capacity { m with shared := m.shared.giveBack, producer := p } := by
      intro p hp
      refine ⟨h.capacity_eq, ?_, h.serves⟩
      have hcounted : samplesIn m.producer.inHand + m.producer.unsent = 1 := by rw [hproducer]; rfl
      simp only [onTheWay, giveBack] at hpending ⊢
      omega
    dsimp only at hstep
    split at hstep
    · obtain rfl := Option.some.inj hstep
      exact hback _ rfl
    · obtain rfl := Option.some.inj hstep
      exact hback _ rfl
  · exact absurd hstep (by simp)

/-- The producer takes over what is left in the queue. -/
theorem of_join? (h : m.Sound capacity) {result : List Event × Machine σ} (hstep : m.join? = some result) :
    result.2.Sound capacity := by
  unfold join? at hstep
  split at hstep
  · next p hproducer =>
    split at hstep
    · next hended =>
      obtain rfl := Option.some.inj hstep
      have hpending := h.pending_eq
      refine ⟨h.capacity_eq, ?_, fun hrunning => ?_⟩
      · simp [onTheWay, hproducer, ProducerState.unsent, ProducerState.inHand] at hpending ⊢
        omega
      · refine absurd hrunning (h.not_running ?_)
        unfold hasEnded at hended
        split at hended
        · next hworker => rw [hworker]; rfl
        · exact absurd hended Bool.false_ne_true
    · exact absurd hstep (by simp)
  · exact absurd hstep (by simp)

variable [Collector σ]

/-- A sample that is applied is pending no more. -/
theorem of_applied (h : m.Sound capacity) {message : Message} {w : WorkerState} {p : ProducerState}
    (hhand : samplesIn w.inHand + samplesIn p.inHand + message.weight =
      samplesIn m.worker.inHand + samplesIn m.producer.inHand) (hunsent : p.unsent = m.producer.unsent)
    (hserves : m.IsRunning → w.isServing = true) :
    Sound capacity { m.applied message with worker := w, producer := p } := by
  obtain ⟨hqueue, hcapacity, hopen, htoken⟩ := applyMessage_frame m.shared message
  have hpending := h.pending_eq
  refine ⟨hcapacity.trans h.capacity_eq, ?_, fun hrunning => ?_⟩
  · have happlied : (m.shared.applyMessage message).pending = m.shared.pending - message.weight := by
      cases message with
      | flush => rfl
      | sample d =>
        rw [applyMessage]
        split <;> rfl
    simp only [onTheWay, applied, hqueue, happlied] at hpending ⊢
    omega
  · have hrunning' : m.IsRunning := by
      obtain ⟨hcancelled, hisOpen⟩ := hrunning
      exact ⟨(congrArg CancelToken.isCancelled htoken).symm.trans hcancelled, hopen.symm.trans hisOpen⟩
    have hjoined : (m.shared.applyMessage message).isJoined = m.shared.isJoined := by
      cases message with
      | flush => rfl
      | sample d =>
        rw [applyMessage]
        split <;> rfl
    exact ⟨hserves hrunning', hjoined.trans (h.serves hrunning').2⟩

theorem of_applyHeld? (h : m.Sound capacity) {result : List Event × Machine σ}
    (hstep : m.applyHeld? = some result) : result.2.Sound capacity := by
  unfold applyHeld? at hstep
  split at hstep
  · next message hworker =>
    obtain rfl := Option.some.inj hstep
    refine h.of_applied (p := m.producer) ?_ rfl fun _ => rfl
    simp [hworker, WorkerState.inHand]
    omega
  · next message left hworker =>
    obtain rfl := Option.some.inj hstep
    refine h.of_applied (p := m.producer) ?_ rfl fun hrunning => ?_
    · simp [hworker, WorkerState.inHand]
      omega
    · exact absurd hrunning (h.not_running (by rw [hworker]; rfl))
  · exact absurd hstep (by simp)

theorem of_applyLeft? (h : m.Sound capacity) {result : List Event × Machine σ}
    (hstep : m.applyLeft? = some result) : result.2.Sound capacity := by
  unfold applyLeft? at hstep
  split at hstep
  · next p message left hproducer =>
    obtain rfl := Option.some.inj hstep
    refine h.of_applied (w := m.worker) ?_ (by rw [hproducer]; rfl) fun hrunning => (h.serves hrunning).1
    simp [hproducer, ProducerState.inHand]
    omega
  · next p hproducer =>
    obtain rfl := Option.some.inj hstep
    exact h.producerAt (by rw [hproducer]; rfl)
  · exact absurd hstep (by simp)

/-- Only the wrapped collector can change when something is given back. -/
theorem exists_resolveSettled (b : Buffered σ) : ∃ inner, b.resolveSettled.2 = { b with inner } := by
  rw [resolveSettled]
  split
  · exact ⟨_, rfl⟩
  · exact ⟨b.inner, rfl⟩

theorem finished (h : m.Sound capacity) {p : Purpose} (hproducer : m.producer = .finishing p) :
    (m.finished p).2.Sound capacity := by
  have hidle : (m.producerAt .idle).Sound capacity := h.producerAt (by rw [hproducer]; rfl)
  cases p with
  | resolve =>
    obtain ⟨inner, hinner⟩ := exists_resolveSettled m.shared
    show Sound capacity { m with shared := m.shared.resolveSettled.2, producer := .idle }
    rw [hinner]
    exact ⟨hidle.capacity_eq, hidle.pending_eq, hidle.serves⟩
  | reset => exact ⟨hidle.capacity_eq, hidle.pending_eq, hidle.serves⟩
  | close => exact hidle
  | refuse d e => exact hidle

omit [Collector σ] in
theorem began (h : m.Sound capacity) (hproducer : m.producer = .idle) (p : Purpose) :
    (m.began p).Sound capacity := by
  rw [Machine.began.eq_def]
  split
  · have hjoining : (m.producerAt (.joining .close)).Sound capacity := h.producerAt (by rw [hproducer]; rfl)
    exact ⟨hjoining.capacity_eq, hjoining.pending_eq, fun hrunning => absurd hrunning.2 Bool.false_ne_true⟩
  · split
    · exact h.producerAt (by rw [hproducer]; rfl)
    · split
      · have hflushing : ∀ p, (m.producerAt (.flushing p)).Sound capacity := fun p =>
          h.producerAt (by rw [hproducer]; rfl)
        exact ⟨(hflushing p).capacity_eq, (hflushing p).pending_eq, (hflushing p).serves⟩
      · exact h.producerAt (by rw [hproducer]; rfl)

variable [Clocked σ]

/-- Every step leaves counts and signals sound. -/
theorem of_step? (h : m.Sound capacity) {action : Action} {result : List Event × Machine σ}
    (hstep : m.step? action = some result) : result.2.Sound capacity := by
  cases action with
  | add d => exact h.of_add? hstep
  | send => exact h.of_send? hstep
  | block => exact h.of_block? hstep
  | heedSignal =>
    rw [step?] at hstep
    split at hstep
    · exact h.of_stopWaiting? hstep
    · exact absurd hstep (by simp)
  | heedEnd =>
    rw [step?] at hstep
    split at hstep
    · exact h.of_stopWaiting? hstep
    · exact absurd hstep (by simp)
  | giveBack => exact h.of_giveBack? hstep
  | setMetadata d =>
    obtain ⟨-, rfl⟩ := eq_of_whenIdle hstep
    exact ⟨h.capacity_eq, h.pending_eq, h.serves⟩
  | info =>
    obtain ⟨hproducer, rfl⟩ := eq_of_whenIdle hstep
    exact h.producerAt (by rw [hproducer]; rfl)
  | begin p =>
    have hbegan := fun hproducer => h.began hproducer p
    cases p with
    | refuse d e => exact absurd hstep (by simp [step?])
    | _ =>
      obtain ⟨hproducer, rfl⟩ := eq_of_whenIdle hstep
      exact hbegan hproducer
  | receiveAnswer =>
    rw [step?] at hstep
    split at hstep
    · next p hproducer =>
      split at hstep
      · obtain rfl := Option.some.inj hstep
        exact h.producerAt (by rw [hproducer]; rfl)
      · exact absurd hstep (by simp)
    · exact absurd hstep (by simp)
  | join => exact h.of_join? hstep
  | applyLeft => exact h.of_applyLeft? hstep
  | finish =>
    rw [step?] at hstep
    split at hstep
    · next p hproducer =>
      obtain rfl := Option.some.inj hstep
      exact h.finished hproducer
    · exact absurd hstep (by simp)
  | tell => exact h.of_tell? hstep
  | take => exact h.of_take? hstep
  | apply => exact h.of_applyHeld? hstep
  | notice => exact h.of_notice? hstep
  | collect => exact h.of_collect? hstep
  | leave => exact h.of_leave? hstep
  | cancel =>
    obtain rfl := Option.some.inj hstep
    exact ⟨h.capacity_eq, h.pending_eq, fun hrunning => absurd hrunning.1.symm Bool.false_ne_true⟩
  | elapse millis =>
    obtain rfl := Option.some.inj hstep
    exact ⟨h.capacity_eq, h.pending_eq, h.serves⟩

theorem of_run? (h : m.Sound capacity) {actions : List Action} {events : List Event}
    (hrun : m.run? actions = some (events, m')) : m'.Sound capacity := by
  induction actions generalizing m events with
  | nil =>
    obtain ⟨-, rfl⟩ := Prod.mk.inj (Option.some.inj hrun)
    exact h
  | cons action actions ih =>
    obtain ⟨events', m₁, more, hstep, hmore, -⟩ := run?_cons hrun
    exact ih (h.of_step? hstep) hmore

/-! ## At the end of an operation -/

omit [Clocked σ] [Collector σ] in
/-- When an operation is finished nothing is on its way, and the worker waits. -/
theorem atRest (hm : m.Consistent) (h : m.Sound capacity) (hrunning : m.IsRunning) {p : Purpose}
    (hproducer : m.producer = .finishing p) : m.shared.AtRest capacity ∧ m.worker = .waiting := by
  obtain ⟨hworker, hrest⟩ := List.append_eq_nil_iff.mp (line_of_finishing hm hproducer)
  obtain ⟨-, hqueue⟩ := List.append_eq_nil_iff.mp hrest
  obtain ⟨hserving, hjoined⟩ := h.serves hrunning
  have hpending := h.pending_eq
  simp only [onTheWay, hworker, hproducer, hqueue] at hpending
  refine ⟨⟨hpending, hqueue, h.capacity_eq, hrunning.2, hjoined, ?_⟩, ?_⟩
  · exact congrArg CancelToken.mk hrunning.1
  · cases hwaiting : m.worker with
    | waiting => rfl
    | holding message => simp [hwaiting, WorkerState.inHand] at hworker
    | _ => simp [hwaiting, WorkerState.isServing] at hserving

/-- A reset that is finished leaves nothing but the wrapped collector begun anew. -/
theorem eq_of_reset (hm : m.Consistent) (h : m.Sound capacity) (hrunning : m.IsRunning)
    (hreset : m.step? .finish = some ([.wasReset], m')) :
    m' = ⟨around .fresh capacity (Collector.reset m.shared.inner), .waiting, .idle, m.isAnswered⟩ := by
  rw [step?] at hreset
  split at hreset
  · next p hproducer =>
    obtain ⟨hrest, hworker⟩ := h.atRest hm hrunning hproducer
    cases p with
    | reset =>
      obtain ⟨-, rfl⟩ := Prod.mk.inj (Option.some.inj hreset)
      rw [hrest.resetSettled_eq, hworker]
    | resolve | close | refuse => simp [Machine.finished] at hreset
  · exact absurd hreset (by simp)

end Sound

end Machine

end Buffered

end Telemetry

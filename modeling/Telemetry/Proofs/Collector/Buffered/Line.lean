import Telemetry.Proofs.Collector.Buffered.Pipe

/-!
# Producer and worker make a line

The samples that have been sent and not applied are spread over the hands of the worker, those of a producer that
applies what the worker has left, and the queue. One after the other they are a line (`Machine.line`), and with them
a machine is a pipe (`Machine.pipe`).

For each place where the producer can stand, `Machine.PlacedAt` says what holds there. Most places say that no
request stands in the line; before the answer to a request it is the last of the line until it is answered; and when
an operation is finished, the line is empty.

`Machine.work` bounds how much producer and worker can still do without a new operation. A step of either is a step
of the pipe, keeps what holds of the machine, and lessens that bound (`Machine.Works`); for the worker this is shown
here.
-/

namespace Telemetry

/-- The sample in a message. -/
def Message.sample? : Message → Option Document
  | .sample d => some d
  | .flush => none

namespace Buffered

/-! ## Steps of a message -/

section Apply

variable {σ : Type} [Collector σ]

/-- A message that is applied leaves the queue and the signals as they are. -/
theorem applyMessage_frame (b : Buffered σ) (message : Message) :
    (b.applyMessage message).queue = b.queue ∧ (b.applyMessage message).capacity = b.capacity ∧
      (b.applyMessage message).isOpen = b.isOpen ∧ (b.applyMessage message).token = b.token := by
  cases message with
  | flush => exact ⟨rfl, rfl, rfl, rfl⟩
  | sample d =>
    rw [applyMessage]
    split <;> exact ⟨rfl, rfl, rfl, rfl⟩

/-- What a sample does to the wrapped collector, and to what is kept of its refusals. -/
theorem applyMessage_sample (b : Buffered σ) (d : Document) :
    (b.applyMessage (.sample d)).inner = (Collector.add d b.inner).2 ∧
      (b.applyMessage (.sample d)).errors = b.errors ++ Event.refusal (Collector.add d b.inner).1 := by
  rw [applyMessage]
  split <;> rename_i heq <;> rw [heq] <;> simp [Event.refusal]

end Apply

/-! ## The line -/

/-- The messages that a worker has taken and not applied, in order. -/
def WorkerState.inHand : WorkerState → List Message
  | .waiting | .ended => []
  | .holding message => [message]
  | .collecting taken => taken
  | .draining left => left

/-- The messages that a producer has taken and not applied, in order. -/
def ProducerState.inHand : ProducerState → List Message
  | .applying _ left => left
  | _ => []

/-- The sample for whose sake an operation is made. -/
def Purpose.offered : Purpose → List Document
  | .refuse d _ => [d]
  | _ => []

/-- The sample that a producer has been asked to add, and about which it has not said anything yet. -/
def ProducerState.offered : ProducerState → List Document
  | .idle | .telling _ => []
  | .counted d | .blocked d | .returning d _ => [d]
  | .flushing p | .awaiting p | .joining p | .applying p _ | .finishing p => p.offered

/-- The sample that an action asks the producer to add. -/
def Action.offered : Action → List Document
  | .add d => [d]
  | _ => []

/-- No request is among the messages. -/
def IsSamples (line : List Message) : Prop :=
  ∀ message ∈ line, message.isFlush = false

theorem IsSamples.of_cons {message : Message} {line : List Message} (h : IsSamples (message :: line)) :
    message.isFlush = false ∧ IsSamples line :=
  List.forall_mem_cons.mp h

theorem IsSamples.append_sample {line : List Message} (h : IsSamples line) (d : Document) :
    IsSamples (line ++ [.sample d]) := by
  intro message hmessage
  rcases List.mem_append.mp hmessage with hmem | hmem
  · exact h message hmem
  · rw [List.mem_singleton.mp hmem]
    rfl

/-- The line ends in a request, and there is no other in it. -/
def EndsInFlush (line : List Message) : Prop :=
  ∃ samples, IsSamples samples ∧ line = samples ++ [.flush]

/-- When the first message of such a line is applied, either it is the request, or the rest is such a line. -/
theorem EndsInFlush.of_cons {message : Message} {line : List Message} (h : EndsInFlush (message :: line)) :
    message.isFlush = true ∧ line = [] ∨ message.isFlush = false ∧ EndsInFlush line := by
  obtain ⟨samples, hsamples, heq⟩ := h
  cases samples with
  | nil =>
    obtain ⟨rfl, rfl⟩ := List.cons.inj heq
    exact .inl ⟨rfl, rfl⟩
  | cons first samples =>
    obtain ⟨rfl, rfl⟩ := List.cons.inj heq
    obtain ⟨hfirst, hrest⟩ := hsamples.of_cons
    exact .inr ⟨hfirst, samples, hrest, rfl⟩

namespace Machine

variable {σ : Type}

/-- All that has been sent and not applied, in order. -/
def line (m : Machine σ) : List Message :=
  m.worker.inHand ++ (m.producer.inHand ++ m.shared.queue)

/-- The line of samples in front of the wrapped collector. -/
def pipe (m : Machine σ) : Pipe σ :=
  ⟨m.line.filterMap Message.sample?, m.shared.inner, m.shared.errors⟩

/-- The worker has been told to end, or has ended. -/
def WillEnd (m : Machine σ) : Prop :=
  m.shared.token.isCancelled = true ∨ m.shared.isOpen = false ∨ m.hasEnded = true

/-- What holds where the producer may stand. -/
def PlacedAt (m : Machine σ) : ProducerState → Prop
  | .idle | .telling _ => IsSamples m.line ∧ (m.shared.isOpen = false → m.line = [])
  | .counted _ | .blocked _ => m.shared.isOpen = true ∧ IsSamples m.line
  | .returning _ _ => m.shared.isOpen = true ∧ IsSamples m.line ∧ m.WillEnd
  | .flushing _ => m.shared.isOpen = true ∧ IsSamples m.line ∧ m.isAnswered = false
  | .awaiting _ =>
    m.shared.isOpen = true ∧
      (m.isAnswered = false ∧ EndsInFlush m.line ∨ m.isAnswered = true ∧ m.line = [])
  | .joining _ => m.WillEnd
  | .applying _ _ => m.hasEnded = true ∧ m.shared.queue = []
  | .finishing _ => m.line = []

/-- What holds of a machine at any moment. A queue without room is empty. -/
structure Consistent (m : Machine σ) : Prop where
  handed : m.shared.capacity = 0 → m.shared.queue = []
  placed : m.PlacedAt m.producer

theorem Consistent.placedAt {m : Machine σ} (hm : m.Consistent) {p : ProducerState} (h : m.producer = p) :
    m.PlacedAt p :=
  h ▸ hm.placed

end Machine

/-! ## What is left to do -/

/-- A bound on the steps of a worker that finds nothing in the queue. -/
def WorkerState.work : WorkerState → Nat
  | .waiting => 3
  | .holding _ => 4
  | .collecting taken => 2 + 2 * taken.length
  | .draining left => 1 + 2 * left.length
  | .ended => 0

/-- A bound on the steps up to the end of the operation, those included that what it sends will cost the worker. -/
def ProducerState.work : ProducerState → Nat
  | .idle => 0
  | .counted _ => 6
  | .blocked _ => 5
  | .returning _ _ => 4
  | .flushing _ => 8
  | .awaiting _ => 4
  | .joining _ => 3
  | .applying _ left => 2 + 2 * left.length
  | .finishing _ | .telling _ => 1

namespace Machine

variable {σ : Type}

/-- A bound on the steps of producer and worker without a new operation: a message in the queue costs three. -/
def work (m : Machine σ) : Nat :=
  m.worker.work + m.producer.work + 3 * m.shared.queue.length

variable {m m' : Machine σ}

/-! ## What keeps a machine consistent -/

/-- Where nothing changes but the hands that hold the line, what holds there stays. -/
theorem PlacedAt.congr {p : ProducerState} (h : m.PlacedAt p) (hline : m'.line = m.line)
    (hopen : m'.shared.isOpen = m.shared.isOpen) (hanswered : m'.isAnswered = m.isAnswered)
    (hend : m.WillEnd → m'.WillEnd)
    (hleft : m.hasEnded = true ∧ m.shared.queue = [] → m'.hasEnded = true ∧ m'.shared.queue = []) :
    m'.PlacedAt p := by
  cases p with
  | returning d e =>
    rw [PlacedAt, hline, hopen]
    exact ⟨h.1, h.2.1, hend h.2.2⟩
  | joining p => exact hend h
  | applying p left => exact hleft h
  | _ => simpa only [PlacedAt, hline, hopen, hanswered] using h

/-- What holds where the producer stands, after the worker has applied the first message of the line. -/
theorem PlacedAt.of_applied {p : ProducerState} (h : m.PlacedAt p) {message : Message}
    (hline : m.line = message :: m'.line) (hopen : m'.shared.isOpen = m.shared.isOpen)
    (hanswered : m'.isAnswered = (m.isAnswered || message.isFlush)) (hend : m.WillEnd → m'.WillEnd)
    (hnot : m.hasEnded = false) : m'.PlacedAt p := by
  have hne : m.line ≠ [] := by
    rw [hline]
    exact List.cons_ne_nil _ _
  have hsamples : IsSamples m.line → message.isFlush = false ∧ IsSamples m'.line := by
    rw [hline]
    exact IsSamples.of_cons
  cases p with
  | idle | telling held => exact ⟨(hsamples h.1).2, fun hclosed => absurd (h.2 (hopen.symm.trans hclosed)) hne⟩
  | counted d => exact ⟨hopen.trans h.1, (hsamples h.2).2⟩
  | blocked d => exact ⟨hopen.trans h.1, (hsamples h.2).2⟩
  | returning d e => exact ⟨hopen.trans h.1, (hsamples h.2.1).2, hend h.2.2⟩
  | flushing p =>
    obtain ⟨hisOpen, hline', hwaits⟩ := h
    obtain ⟨hsample, hrest⟩ := hsamples hline'
    exact ⟨hopen.trans hisOpen, hrest, by rw [hanswered, hwaits, hsample]; rfl⟩
  | awaiting p =>
    obtain ⟨hisOpen, ⟨hwaits, hflush⟩ | ⟨-, hempty⟩⟩ := h
    · refine ⟨hopen.trans hisOpen, ?_⟩
      rw [hline] at hflush
      rcases hflush.of_cons with ⟨hlast, hempty⟩ | ⟨hsample, hrest⟩
      · exact .inr ⟨by rw [hanswered, hlast, Bool.or_true], hempty⟩
      · exact .inl ⟨by rw [hanswered, hwaits, hsample]; rfl, hrest⟩
    · exact absurd hempty hne
  | joining p => exact hend h
  | applying p left => exact absurd (hnot.symm.trans h.1) Bool.false_ne_true
  | finishing p => exact absurd h hne

/-! ## What a step may do -/

variable [Collector σ] [Clocked σ]

/-- A step is one of the pipe, and leaves the machine consistent. -/
structure Advances (m : Machine σ) (result : List Event × Machine σ) : Prop where
  step : m.pipe.Step result.1 result.2.pipe
  consistent : result.2.Consistent

/-- A step that is part of an operation, or of the worker's. Something is said about a sample when the producer is
done with it. -/
structure Works (m : Machine σ) (result : List Event × Machine σ) : Prop extends Advances m result where
  work_lt : result.2.work < m.work
  offered_eq : m.producer.offered = Event.answeredIn result.1 ++ result.2.producer.offered

/-- The first message of the line that is applied is a step of the pipe. -/
theorem step_of_applied {message : Message} (hline : m.line = message :: m'.line)
    (hshared : m'.shared = m.shared.applyMessage message) :
    m.pipe.Step (Event.ofMessage m.shared.inner message) m'.pipe := by
  rw [pipe, pipe, hline, hshared]
  cases message with
  | flush => exact .stutter
  | sample d =>
    obtain ⟨hinner, herrors⟩ := applyMessage_sample m.shared d
    rw [hinner, herrors]
    exact .apply d _ _ _

/-! ## The worker -/

/-- A worker moves messages from the queue to its hands. -/
theorem works_of_shift (hm : m.Consistent) {w : WorkerState} (queue : List Message)
    (hnot : m.hasEnded = false) (hline : w.inHand ++ queue = m.worker.inHand ++ m.shared.queue)
    (hqueue : m.shared.queue = [] → queue = [])
    (hwork : w.work + 3 * queue.length < m.worker.work + 3 * m.shared.queue.length) :
    Works m ([], { m with worker := w, shared := { m.shared with queue } }) := by
  have hhand : m.producer.inHand = [] := by
    cases hproducer : m.producer with
    | applying p left => exact absurd (hnot.symm.trans (hm.placedAt hproducer).1) Bool.false_ne_true
    | _ => rfl
  have hline' : line { m with worker := w, shared := { m.shared with queue } } = m.line := by
    simp only [line, hhand, List.nil_append]
    exact hline
  refine ⟨⟨?_, ?_, ?_⟩, ?_, ?_⟩
  · rw [pipe, pipe, hline']
    exact .stutter
  · exact fun hcapacity => hqueue (hm.handed hcapacity)
  · refine hm.placed.congr hline' rfl rfl (fun hend => ?_) fun h => ?_
    · exact hend.imp_right fun hend => .inl (hend.resolve_right (by simp [hnot]))
    · exact absurd (hnot.symm.trans h.1) Bool.false_ne_true
  · simp only [work]
    omega
  · rfl

/-- A worker moves on, and the queue stays as it is. -/
theorem works_of_turn (hm : m.Consistent) {w : WorkerState} (hnot : m.hasEnded = false)
    (hhand : w.inHand = m.worker.inHand) (hwork : w.work < m.worker.work) :
    Works m ([], { m with worker := w }) :=
  works_of_shift hm m.shared.queue hnot (by rw [hhand]) id (Nat.add_lt_add_right hwork _)

theorem works_of_take? (hm : m.Consistent) {result : List Event × Machine σ} (h : m.take? = some result) :
    Works m result := by
  unfold take? at h
  split at h
  · next message queue hworker hqueue =>
    obtain rfl := Option.some.inj h
    refine works_of_shift hm _ ?_ ?_ ?_ ?_
    · rw [hasEnded, hworker]
    · rw [hworker, hqueue]
      rfl
    · simp [hqueue]
    · simp only [hworker, hqueue, WorkerState.work, List.length_cons]
      omega
  · exact absurd h (by simp)

theorem works_of_notice? (hm : m.Consistent) {result : List Event × Machine σ} (h : m.notice? = some result) :
    Works m result := by
  unfold notice? at h
  split at h
  · next hworker =>
    split at h
    · obtain rfl := Option.some.inj h
      refine works_of_turn hm ?_ ?_ ?_
      · rw [hasEnded, hworker]
      · rw [hworker]
        rfl
      · simp only [hworker, WorkerState.work, List.length_nil]
        omega
    · exact absurd h (by simp)
  · exact absurd h (by simp)

theorem works_of_collect? (hm : m.Consistent) {result : List Event × Machine σ} (h : m.collect? = some result) :
    Works m result := by
  unfold collect? at h
  split at h
  · next taken message queue hworker hqueue =>
    obtain rfl := Option.some.inj h
    refine works_of_shift hm _ ?_ ?_ ?_ ?_
    · rw [hasEnded, hworker]
    · rw [hworker, hqueue]
      exact List.append_assoc _ _ _
    · simp [hqueue]
    · simp only [hworker, hqueue, WorkerState.work, List.length_append, List.length_cons, List.length_nil]
      omega
  · next taken hworker hqueue =>
    obtain rfl := Option.some.inj h
    refine works_of_turn hm ?_ ?_ ?_
    · rw [hasEnded, hworker]
    · rw [hworker]
      rfl
    · simp only [hworker, WorkerState.work]
      omega
  · exact absurd h (by simp)

theorem works_of_leave? (hm : m.Consistent) {result : List Event × Machine σ} (h : m.leave? = some result) :
    Works m result := by
  unfold leave? at h
  split at h
  · next hworker =>
    obtain rfl := Option.some.inj h
    refine works_of_turn hm ?_ ?_ ?_
    · rw [hasEnded, hworker]
    · rw [hworker]
      rfl
    · simp only [hworker, WorkerState.work]
      omega
  · next hworker =>
    split at h
    · obtain rfl := Option.some.inj h
      refine works_of_turn hm ?_ ?_ ?_
      · rw [hasEnded, hworker]
      · rw [hworker]
        rfl
      · simp only [hworker, WorkerState.work]
        omega
    · exact absurd h (by simp)
  · exact absurd h (by simp)

omit [Clocked σ] in
/-- Nothing is said to the producer when a message is applied. -/
theorem answeredIn_ofMessage (inner : σ) (message : Message) :
    Event.answeredIn (Event.ofMessage inner message) = [] := by
  cases message <;> rfl

/-- A worker applies the first message in its hands. -/
theorem works_of_apply (hm : m.Consistent) {w : WorkerState} {message : Message}
    (hnot : m.hasEnded = false) (hhand : m.worker.inHand = message :: w.inHand)
    (hwork : w.work < m.worker.work) :
    Works m (Event.ofMessage m.shared.inner message, { m.applied message with worker := w }) := by
  obtain ⟨hqueue, hcapacity, hopen, htoken⟩ := applyMessage_frame m.shared message
  have hline : m.line = message :: line { m.applied message with worker := w } := by
    simp only [line, hhand, applied, hqueue]
    rfl
  refine ⟨⟨step_of_applied hline rfl, ?_, ?_⟩, ?_, ?_⟩
  · intro hzero
    exact hqueue.trans (hm.handed (hcapacity.symm.trans hzero))
  · refine hm.placed.of_applied hline hopen rfl (fun hend => ?_) hnot
    rcases hend with hcancelled | hclosed | hended
    · exact .inl ((congrArg CancelToken.isCancelled htoken).trans hcancelled)
    · exact .inr (.inl (hopen.trans hclosed))
    · exact absurd (hnot.symm.trans hended) Bool.false_ne_true
  · simp only [work, applied, hqueue]
    omega
  · rw [answeredIn_ofMessage]
    rfl

theorem works_of_applyHeld? (hm : m.Consistent) {result : List Event × Machine σ}
    (h : m.applyHeld? = some result) : Works m result := by
  unfold applyHeld? at h
  split at h
  · next message hworker =>
    obtain rfl := Option.some.inj h
    refine works_of_apply hm ?_ ?_ ?_
    · rw [hasEnded, hworker]
    · rw [hworker]
      rfl
    · rw [hworker]
      exact Nat.lt_succ_self 3
  · next message left hworker =>
    obtain rfl := Option.some.inj h
    refine works_of_apply hm ?_ ?_ ?_
    · rw [hasEnded, hworker]
    · rw [hworker]
      rfl
    · simp only [hworker, WorkerState.work, List.length_cons]
      omega
  · exact absurd h (by simp)

end Machine

end Buffered

end Telemetry

import Telemetry.Proofs.Collector.Buffered.Line

/-!
# The steps of the producer

Each step of the producer is a step of the pipe (`Machine.Advances`), and those that are part of an operation lessen
what is left to do (`Machine.Works`). A message that is sent joins the line (`Machine.Sent`), whether it finds room in
the queue or goes from hand to hand; when the producer only moves on, the line stays as it is.
-/

namespace Telemetry.Buffered.Machine

variable {σ : Type} {m m' : Machine σ}

/-! ## The producer sends -/

/-- A message has joined the line. -/
structure Sent (m : Machine σ) (message : Message) (m' : Machine σ) : Prop where
  line_eq : m'.line = m.line ++ [message]
  inner_eq : m'.shared.inner = m.shared.inner
  errors_eq : m'.shared.errors = m.shared.errors
  isOpen_eq : m'.shared.isOpen = m.shared.isOpen
  answered_eq : m'.isAnswered = m.isAnswered
  producer_eq : m'.producer = m.producer
  handed : m'.shared.capacity = 0 → m'.shared.queue = []
  work_le : m'.work ≤ m.work + 3

theorem sent_of_offer? (hm : m.Consistent) (hhand : m.producer.inHand = []) {message : Message}
    (h : m.offer? message = some m') : Sent m message m' := by
  unfold offer? at h
  split at h
  · next hroom =>
    obtain rfl := Option.some.inj h
    refine ⟨?_, rfl, rfl, rfl, rfl, rfl, fun hzero => ?_, ?_⟩
    · simp only [line, Buffered.push, List.append_assoc]
    · have hzero' : m.shared.capacity = 0 := hzero
      omega
    · simp only [work, Buffered.push, List.length_append, List.length_singleton]
      omega
  · split at h
    · next hzero =>
      split at h
      · next hworker =>
        obtain rfl := Option.some.inj h
        -- nothing waits in a queue without room
        refine ⟨?_, rfl, rfl, rfl, rfl, rfl, hm.handed, ?_⟩
        · simp only [line, hworker, hhand, hm.handed hzero]
          rfl
        · simp only [work, hworker, WorkerState.work]
          omega
      · exact absurd h (by simp)
    · exact absurd h (by simp)

theorem sent_of_handOver? (hm : m.Consistent) (hhand : m.producer.inHand = []) {message : Message}
    (h : m.handOver? message = some m') : Sent m message m' := by
  unfold handOver? at h
  split at h
  · next taken hworker =>
    split at h
    · next hzero =>
      obtain rfl := Option.some.inj h
      refine ⟨?_, rfl, rfl, rfl, rfl, rfl, hm.handed, ?_⟩
      · simp only [line, hworker, hhand, hm.handed hzero]
        simp [WorkerState.inHand]
      · simp only [work, hworker, WorkerState.work, List.length_append, List.length_singleton]
        omega
    · exact sent_of_offer? hm hhand h
  · exact sent_of_offer? hm hhand h

/-- Where the producer stands makes no difference to the line, if it holds nothing of it. -/
theorem line_producerAt {p : ProducerState} (h : p.inHand = m.producer.inHand) :
    (m.producerAt p).line = m.line := by
  simp only [line, producerAt, h]

theorem pipe_producerAt {p : ProducerState} (h : p.inHand = m.producer.inHand) :
    (m.producerAt p).pipe = m.pipe := by
  rw [pipe, pipe, line_producerAt h]
  rfl

theorem work_producerAt (p : ProducerState) : (m.producerAt p).work + m.producer.work = m.work + p.work := by
  simp only [work, producerAt]
  omega

/-- A worker that has ended holds nothing. -/
theorem inHand_of_hasEnded (h : m.hasEnded = true) : m.worker.inHand = [] := by
  unfold hasEnded at h
  split at h
  · next hworker =>
    rw [hworker]
    rfl
  · exact absurd h Bool.false_ne_true

/-- When an operation is finished, nothing waits. -/
theorem line_of_finishing (hm : m.Consistent) {p : Purpose} (hproducer : m.producer = .finishing p) :
    m.line = [] :=
  hm.placedAt hproducer

variable [Collector σ] [Clocked σ]

/-- A sample that is sent is accepted. -/
theorem works_of_sent_sample {d : Document} (h : Sent m (.sample d) m')
    (hhand : m.producer.inHand = []) (hopen : m.shared.isOpen = true) (hsamples : IsSamples m.line)
    (hwork : 3 < m.producer.work) (hoffered : m.producer.offered = [d]) :
    Works m ([.accepted d], m'.producerAt .idle) := by
  have hidle : ProducerState.inHand .idle = m'.producer.inHand := by
    rw [h.producer_eq, hhand]
    rfl
  refine ⟨⟨?_, h.handed, ?_, fun hclosed => ?_⟩, ?_, hoffered⟩
  · rw [pipe_producerAt hidle, pipe, pipe, h.line_eq, List.filterMap_append, h.inner_eq, h.errors_eq]
    exact .accept d
  · rw [line_producerAt hidle, h.line_eq]
    exact hsamples.append_sample d
  · have hclosed' := h.isOpen_eq.symm.trans hclosed
    rw [hopen] at hclosed'
    exact absurd hclosed'.symm Bool.false_ne_true
  · have hle := h.work_le
    have heq := work_producerAt (m := m') .idle
    rw [h.producer_eq, ProducerState.work] at heq
    show (m'.producerAt .idle).work < m.work
    omega

/-- A request that is sent stands at the end of the line. -/
theorem works_of_sent_flush (hm : m.Consistent) {p : Purpose} (h : Sent m .flush m')
    (hproducer : m.producer = .flushing p) : Works m ([], m'.producerAt (.awaiting p)) := by
  obtain ⟨hopen, hsamples, hwaits⟩ := hm.placedAt hproducer
  have hawaiting : ProducerState.inHand (.awaiting p) = m'.producer.inHand := by
    rw [h.producer_eq, hproducer]
    rfl
  refine ⟨⟨?_, h.handed, ?_, ?_⟩, ?_, by rw [hproducer]; rfl⟩
  · rw [pipe_producerAt hawaiting, pipe, pipe, h.line_eq, List.filterMap_append, h.inner_eq, h.errors_eq]
    simp only [List.filterMap_cons, Message.sample?, List.filterMap_nil, List.append_nil]
    exact .stutter
  · exact h.isOpen_eq.trans hopen
  · rw [line_producerAt hawaiting]
    exact .inl ⟨h.answered_eq.trans hwaits, m.line, hsamples, h.line_eq⟩
  · have hle := h.work_le
    have heq := work_producerAt (m := m') (.awaiting p)
    rw [h.producer_eq, hproducer, ProducerState.work, ProducerState.work] at heq
    show (m'.producerAt (.awaiting p)).work < m.work
    omega

theorem works_of_send? (hm : m.Consistent) {result : List Event × Machine σ} (h : m.send? = some result) :
    Works m result := by
  unfold send? at h
  split at h
  · next d hproducer =>
    obtain ⟨hopen, hsamples⟩ := hm.placedAt hproducer
    obtain ⟨n, hn, rfl⟩ := Option.map_eq_some_iff.mp h
    have hhand : m.producer.inHand = [] := by rw [hproducer]; rfl
    have hwork : 3 < m.producer.work := by rw [hproducer, ProducerState.work]; omega
    exact works_of_sent_sample (sent_of_offer? hm hhand hn) hhand hopen hsamples hwork (by rw [hproducer]; rfl)
  · next d hproducer =>
    obtain ⟨hopen, hsamples⟩ := hm.placedAt hproducer
    obtain ⟨n, hn, rfl⟩ := Option.map_eq_some_iff.mp h
    have hhand : m.producer.inHand = [] := by rw [hproducer]; rfl
    have hwork : 3 < m.producer.work := by rw [hproducer, ProducerState.work]; omega
    exact works_of_sent_sample (sent_of_handOver? hm hhand hn) hhand hopen hsamples hwork (by rw [hproducer]; rfl)
  · next p hproducer =>
    obtain ⟨n, hn, rfl⟩ := Option.map_eq_some_iff.mp h
    have hhand : m.producer.inHand = [] := by rw [hproducer]; rfl
    exact works_of_sent_flush hm (sent_of_handOver? hm hhand hn) hproducer
  · exact absurd h (by simp)

/-! ## The producer waits -/

/-- The producer moves on, and the line stays as it is. -/
theorem works_of_move (hm : m.Consistent) {p : ProducerState} {events : List Event}
    (hhand : p.inHand = m.producer.inHand) (hstep : m.pipe.Step events m.pipe) (hplaced : (m.producerAt p).PlacedAt p)
    (hwork : p.work < m.producer.work) (hoffered : m.producer.offered = Event.answeredIn events ++ p.offered) :
    Works m (events, m.producerAt p) := by
  refine ⟨⟨?_, hm.handed, hplaced⟩, ?_, hoffered⟩
  · rw [pipe_producerAt hhand]
    exact hstep
  · have heq := work_producerAt (m := m) p
    show (m.producerAt p).work < m.work
    omega

theorem works_of_block? (hm : m.Consistent) {result : List Event × Machine σ} (h : m.block? = some result) :
    Works m result := by
  unfold block? at h
  split at h
  · next d hproducer =>
    have hplaced := hm.placedAt hproducer
    split at h
    · obtain rfl := Option.some.inj h
      have hhand : ProducerState.inHand (.blocked d) = m.producer.inHand := by rw [hproducer]; rfl
      refine works_of_move hm hhand .stutter ⟨hplaced.1, ?_⟩ ?_ (by rw [hproducer]; rfl)
      · rw [line_producerAt hhand]
        exact hplaced.2
      · rw [hproducer]
        exact Nat.lt_succ_self 5
    · exact absurd h (by simp)
  · exact absurd h (by simp)

/-- A producer stops waiting only if the worker ends. -/
theorem works_of_stopWaiting? (hm : m.Consistent) (hend : m.WillEnd) {e : Error}
    {result : List Event × Machine σ} (h : m.stopWaiting? e = some result) : Works m result := by
  unfold stopWaiting? at h
  split at h
  · next d hproducer =>
    have hplaced := hm.placedAt hproducer
    obtain rfl := Option.some.inj h
    have hhand : ProducerState.inHand (.returning d e) = m.producer.inHand := by rw [hproducer]; rfl
    refine works_of_move hm hhand .stutter ⟨hplaced.1, ?_, hend⟩ ?_ (by rw [hproducer]; rfl)
    · rw [line_producerAt hhand]
      exact hplaced.2
    · rw [hproducer]
      exact Nat.lt_succ_self 4
  · next p hproducer =>
    obtain rfl := Option.some.inj h
    refine works_of_move hm (by rw [hproducer]; rfl) .stutter hend ?_ (by rw [hproducer]; rfl)
    rw [hproducer, ProducerState.work, ProducerState.work]
    omega
  · next p hproducer =>
    obtain rfl := Option.some.inj h
    refine works_of_move hm (by rw [hproducer]; rfl) .stutter hend ?_ (by rw [hproducer]; rfl)
    rw [hproducer]
    exact Nat.lt_succ_self 3
  · exact absurd h (by simp)

theorem works_of_giveBack? (hm : m.Consistent) {result : List Event × Machine σ} (h : m.giveBack? = some result) :
    Works m result := by
  unfold giveBack? at h
  split at h
  · next d e hproducer =>
    obtain ⟨hopen, hsamples, hend⟩ := hm.placedAt hproducer
    -- what has been counted is no part of the line
    let returned : Machine σ := { m with shared := m.shared.giveBack }
    have hconsistent : returned.Consistent := ⟨hm.handed, hm.placed⟩
    have hback : ∀ {result}, Works returned result → Works m result := fun h =>
      ⟨⟨h.step, h.consistent⟩, h.work_lt, h.offered_eq⟩
    have hreturning : returned.producer = .returning d e := hproducer
    dsimp only at h
    split at h
    · obtain rfl := Option.some.inj h
      have hhand : ProducerState.inHand .idle = returned.producer.inHand := by rw [hreturning]; rfl
      refine hback (works_of_move hconsistent hhand (.quiet (.refused d e) rfl) ⟨?_, fun hclosed => ?_⟩ ?_ ?_)
      · rw [line_producerAt hhand]
        exact hsamples
      · exact absurd (hopen.symm.trans hclosed) (by decide)
      · rw [hreturning, ProducerState.work, ProducerState.work]
        omega
      · rw [hreturning]
        rfl
    · obtain rfl := Option.some.inj h
      refine hback (works_of_move hconsistent (by rw [hreturning]; rfl) .stutter ?_ ?_ (by rw [hreturning]; rfl))
      · exact hend
      · rw [hreturning]
        exact Nat.lt_succ_self 3
  · exact absurd h (by simp)

/-- The answer to a request comes when the line is empty. -/
theorem works_of_receiveAnswer (hm : m.Consistent) {p : Purpose} (hproducer : m.producer = .awaiting p)
    (hanswered : m.isAnswered = true) : Works m ([], m.producerAt (.finishing p)) := by
  obtain ⟨-, ⟨hwaits, -⟩ | ⟨-, hempty⟩⟩ := hm.placedAt hproducer
  · exact absurd (hwaits.symm.trans hanswered) Bool.false_ne_true
  · have hhand : ProducerState.inHand (.finishing p) = m.producer.inHand := by rw [hproducer]; rfl
    refine works_of_move hm hhand .stutter ?_ ?_ (by rw [hproducer]; rfl)
    · show (m.producerAt (.finishing p)).line = []
      rw [line_producerAt hhand, hempty]
    · rw [hproducer, ProducerState.work, ProducerState.work]
      omega

/-! ## The producer applies what is left -/

theorem works_of_join? {result : List Event × Machine σ} (h : m.join? = some result) :
    Works m result := by
  unfold join? at h
  split at h
  · next p hproducer =>
    split at h
    · next hended =>
      obtain rfl := Option.some.inj h
      refine ⟨⟨?_, fun _ => rfl, hended, rfl⟩, ?_, by rw [hproducer]; rfl⟩
      · -- what was in the queue is now in the hands of the producer
        have hline : line { m with
            shared := { m.shared with queue := [], isJoined := true }
            producer := .applying p m.shared.queue } = m.line := by
          simp only [line, hproducer, ProducerState.inHand, List.append_nil, List.nil_append]
        rw [pipe, pipe, hline]
        exact .stutter
      · simp only [work, hproducer, ProducerState.work, List.length_nil]
        omega
    · exact absurd h (by simp)
  · exact absurd h (by simp)

theorem works_of_applyLeft? (hm : m.Consistent) {result : List Event × Machine σ}
    (h : m.applyLeft? = some result) : Works m result := by
  unfold applyLeft? at h
  split at h
  · next p message left hproducer =>
    obtain ⟨hended, hqueue⟩ := hm.placedAt hproducer
    have hhand := inHand_of_hasEnded hended
    obtain ⟨hqueue', hcapacity, -, -⟩ := applyMessage_frame m.shared message
    obtain rfl := Option.some.inj h
    have hline : m.line = message :: line ((m.applied message).producerAt (.applying p left)) := by
      simp only [line, hhand, hproducer, applied, producerAt, hqueue']
      rfl
    refine ⟨⟨step_of_applied hline rfl, ?_, hended, hqueue'.trans hqueue⟩, ?_, ?_⟩
    · exact fun _ => hqueue'.trans hqueue
    · simp only [work, hproducer, applied, producerAt, hqueue', ProducerState.work, List.length_cons]
      omega
    · rw [hproducer, answeredIn_ofMessage]
      rfl
  · next p hproducer =>
    obtain ⟨hended, hqueue⟩ := hm.placedAt hproducer
    have hhand := inHand_of_hasEnded hended
    obtain rfl := Option.some.inj h
    refine works_of_move hm (by rw [hproducer]; rfl) .stutter ?_ ?_ (by rw [hproducer]; rfl)
    · show line _ = []
      simp only [line, producerAt, hhand, hqueue]
      rfl
    · rw [hproducer]
      exact Nat.lt_succ_self 1
  · exact absurd h (by simp)

/-! ## The producer finishes -/

omit [Clocked σ] in
/-- What is given back when the line is empty. -/
theorem resolveSettled_eq (b : Buffered σ) (waiting : List Document) :
    b.resolveSettled.1 = Pipe.result ⟨waiting, b.inner, b.errors⟩ ∧
      (⟨waiting, b.resolveSettled.2.inner, b.resolveSettled.2.errors⟩ : Pipe σ) =
        Pipe.resolved ⟨waiting, b.inner, b.errors⟩ ∧
      b.resolveSettled.2.queue = b.queue ∧ b.resolveSettled.2.capacity = b.capacity := by
  by_cases herrors : b.errors = [] <;> simp [resolveSettled, Pipe.result, Pipe.resolved, herrors]

/-- What is done at the end of an operation concerns the wrapped collector and its refusals only. -/
theorem works_of_settled (hm : m.Consistent) {p : Purpose} (hproducer : m.producer = .finishing p)
    (shared : Buffered σ) (hqueue : shared.queue = m.shared.queue) (hcapacity : shared.capacity = m.shared.capacity)
    {events : List Event} (hstep : m.pipe.Step events ⟨m.pipe.waiting, shared.inner, shared.errors⟩)
    (hoffered : p.offered = Event.answeredIn events) :
    Works m (events, { m with shared, producer := .idle }) := by
  have hline : line { m with shared, producer := .idle } = m.line := by
    simp only [line, hproducer, hqueue]
    rfl
  refine ⟨⟨?_, fun hzero => ?_, ?_, fun _ => ?_⟩, ?_, ?_⟩
  · rw [pipe, pipe, hline]
    exact hstep
  · exact hqueue.trans (hm.handed (hcapacity.symm.trans hzero))
  · rw [hline, line_of_finishing hm hproducer]
    exact fun _ h => absurd h List.not_mem_nil
  · rw [hline, line_of_finishing hm hproducer]
  · simp only [work, hqueue, hproducer, ProducerState.work]
    omega
  · rw [hproducer]
    exact hoffered.trans (List.append_nil _).symm

/-- An operation that is finished is a step of the pipe. -/
theorem works_of_finish (hm : m.Consistent) {p : Purpose} (hproducer : m.producer = .finishing p) :
    Works m (m.finished p) := by
  have hwaiting : m.pipe.waiting = [] := by
    rw [pipe, line_of_finishing hm hproducer, List.filterMap_nil]
  cases p with
  | resolve =>
    obtain ⟨hresult, hresolved, hqueue, hcapacity⟩ := resolveSettled_eq m.shared m.pipe.waiting
    have hstep : m.pipe.Step [.resolved m.shared.resolveSettled.1]
        ⟨m.pipe.waiting, m.shared.resolveSettled.2.inner, m.shared.resolveSettled.2.errors⟩ := by
      rw [hresult, hresolved]
      exact .resolve hwaiting
    exact works_of_settled hm hproducer _ hqueue hcapacity hstep rfl
  | reset => exact works_of_settled hm hproducer m.shared.resetSettled rfl rfl (.reset hwaiting) rfl
  | close => exact works_of_settled hm hproducer m.shared rfl rfl (.close hwaiting) rfl
  | refuse d e => exact works_of_settled hm hproducer m.shared rfl rfl (.quiet (.refused d e) rfl) rfl

/-- Where the line stays as it is, a producer that tells how much is held is idle afterwards. -/
theorem works_of_tell? (hm : m.Consistent) {result : List Event × Machine σ} (h : m.tell? = some result) :
    Works m result := by
  unfold tell? at h
  split at h
  · next held hproducer =>
    obtain ⟨hsamples, hclosed⟩ := hm.placedAt hproducer
    obtain rfl := Option.some.inj h
    have hhand : ProducerState.inHand .idle = m.producer.inHand := by rw [hproducer]; rfl
    refine works_of_move hm hhand (.quiet (.told _) rfl) ⟨?_, fun hnot => ?_⟩ ?_ (by rw [hproducer]; rfl)
    · rw [line_producerAt hhand]
      exact hsamples
    · rw [line_producerAt hhand]
      exact hclosed hnot
    · rw [hproducer]
      exact Nat.zero_lt_one
  · exact absurd h (by simp)

/-! ## The producer begins -/

theorem advances_of_add? (hm : m.Consistent) {d : Document} {result : List Event × Machine σ}
    (h : m.add? d = some result) : Advances m result := by
  unfold add? at h
  split at h
  · next hproducer =>
    obtain ⟨hsamples, -⟩ := hm.placedAt hproducer
    split at h
    · obtain rfl := Option.some.inj h
      exact ⟨.quiet (.refused d .cancelled) rfl, hm⟩
    · split at h
      · next hopen =>
        obtain rfl := Option.some.inj h
        have hline : line { m with shared := m.shared.count, producer := .counted d } = m.line := by
          simp only [line, hproducer]
          rfl
        refine ⟨?_, hm.handed, hopen, ?_⟩
        · rw [pipe, pipe, hline]
          exact .stutter
        · rw [hline]
          exact hsamples
      · obtain rfl := Option.some.inj h
        exact ⟨.quiet (.refused d (.background .closed)) rfl, hm⟩
  · exact absurd h (by simp)

/-- To ask the wrapped collector how much it holds changes nothing. -/
theorem advances_of_info (hm : m.Consistent) (hproducer : m.producer = .idle) {held : Info} :
    Advances m ([], m.producerAt (.telling held)) := by
  obtain ⟨hsamples, hclosed⟩ := hm.placedAt hproducer
  have hhand : ProducerState.inHand (.telling held) = m.producer.inHand := by rw [hproducer]; rfl
  refine ⟨?_, hm.handed, ?_, fun hnot => ?_⟩
  · rw [pipe_producerAt hhand]
    exact .stutter
  · rw [line_producerAt hhand]
    exact hsamples
  · rw [line_producerAt hhand]
    exact hclosed hnot

/-- An operation begins with a request, unless the worker is about to end or all has been applied. -/
theorem advances_of_began (hm : m.Consistent) (hproducer : m.producer = .idle) (p : Purpose) :
    Advances m ([], m.began p) := by
  obtain ⟨hsamples, hclosed⟩ := hm.placedAt hproducer
  have hempty : ∀ p : ProducerState, p.inHand = [] → p.inHand = m.producer.inHand := by
    intro p hp
    rw [hp, hproducer]
    rfl
  have hjoining : ∀ p, m.shared.token.isCancelled = true → Advances m ([], m.producerAt (.joining p)) := by
    intro p hcancelled
    refine ⟨?_, hm.handed, .inl hcancelled⟩
    rw [pipe_producerAt (hempty _ rfl)]
    exact .stutter
  have hflushing : ∀ p, m.shared.isOpen = true →
      Advances m ([], { m with producer := .flushing p, isAnswered := false }) := by
    intro p hopen
    have hline : line { m with producer := .flushing p, isAnswered := false } = m.line :=
      line_producerAt (hempty (.flushing p) rfl)
    refine ⟨?_, hm.handed, hopen, ?_, rfl⟩
    · rw [pipe, pipe, hline]
      exact .stutter
    · rw [hline]
      exact hsamples
  have hfinishing : ∀ p, m.shared.isOpen = false → Advances m ([], m.producerAt (.finishing p)) := by
    intro p hnot
    refine ⟨?_, hm.handed, ?_⟩
    · rw [pipe_producerAt (hempty _ rfl)]
      exact .stutter
    · show (m.producerAt (.finishing p)).line = []
      rw [line_producerAt (hempty _ rfl)]
      exact hclosed hnot
  unfold began
  split
  · refine ⟨?_, hm.handed, .inr (.inl rfl)⟩
    have hline : line { m with
        shared := { m.shared with isOpen := false }
        producer := .joining .close } = m.line :=
      line_producerAt (hempty (.joining .close) rfl)
    rw [pipe, pipe, hline]
    exact .stutter
  · split
    · next hcancelled => exact hjoining p hcancelled
    · split
      · next hopen => exact hflushing p hopen
      · next hnot => exact hfinishing p (Bool.eq_false_iff.mpr hnot)

end Telemetry.Buffered.Machine

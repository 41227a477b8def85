import Telemetry.Proofs.Collector.Buffered.Producer

/-!
# Whatever producer and worker do

Every action is a step of the pipe (`Machine.advances_of_step?`), so every interleaving is a run of it
(`Machine.run_of_run?`), in which every sample that is offered is accepted or refused (`Machine.offered_of_run?`).

Every step of producer and worker lessens what is left to do (`Machine.work_le_of_run?`), and as long as the producer
stands in the middle of an operation there is a step that they can make (`Machine.exists_step`). So every operation
comes to its end.
-/

namespace Telemetry.Buffered

/-! ## Every step -/

/-- Steps of an operation that has begun, and those of the worker. -/
def Action.isWork : Action → Bool
  | .add _ | .setMetadata _ | .info | .begin _ | .cancel | .elapse _ => false
  | _ => true

/-- The producer begins an operation that takes several steps. -/
def Action.isBegin : Action → Bool
  | .add _ | .info | .begin _ => true
  | _ => false

namespace Machine

variable {σ : Type} [Collector σ] [Clocked σ] {m m' : Machine σ}

theorem works_of_step? (hm : m.Consistent) {action : Action} (hwork : action.isWork = true)
    {result : List Event × Machine σ} (h : m.step? action = some result) : Works m result := by
  cases action with
  | send => exact works_of_send? hm h
  | block => exact works_of_block? hm h
  | heedSignal =>
    rw [step?] at h
    split at h
    · next hcancelled => exact works_of_stopWaiting? hm (.inl hcancelled) h
    · exact absurd h (by simp)
  | heedEnd =>
    rw [step?] at h
    split at h
    · next hended => exact works_of_stopWaiting? hm (.inr (.inr hended)) h
    · exact absurd h (by simp)
  | giveBack => exact works_of_giveBack? hm h
  | receiveAnswer =>
    rw [step?] at h
    split at h
    · next p hproducer =>
      split at h
      · next hanswered =>
        obtain rfl := Option.some.inj h
        exact works_of_receiveAnswer hm hproducer hanswered
      · exact absurd h (by simp)
    · exact absurd h (by simp)
  | join => exact works_of_join? h
  | applyLeft => exact works_of_applyLeft? hm h
  | finish =>
    rw [step?] at h
    split at h
    · next p hproducer =>
      obtain rfl := Option.some.inj h
      exact works_of_finish hm hproducer
    · exact absurd h (by simp)
  | tell => exact works_of_tell? hm h
  | take => exact works_of_take? hm h
  | apply => exact works_of_applyHeld? hm h
  | notice => exact works_of_notice? hm h
  | collect => exact works_of_collect? hm h
  | leave => exact works_of_leave? hm h
  | _ => exact absurd hwork (by simp [Action.isWork])

omit [Collector σ] [Clocked σ] in
theorem eq_of_whenIdle {result result' : List Event × Machine σ} (h : m.whenIdle result = some result') :
    m.producer = .idle ∧ result' = result := by
  unfold whenIdle at h
  split at h
  · next hproducer => exact ⟨hproducer, (Option.some.inj h).symm⟩
  · exact absurd h (by simp)

/-- The surroundings of producer and worker change the wrapped collector or the signal, and nothing else. -/
theorem advances_of_surroundings (hm : m.Consistent) {inner : σ} {token : CancelToken}
    (htoken : m.shared.token.isCancelled = true → token.isCancelled = true) {events : List Event}
    (hstep : m.pipe.Step events { m.pipe with inner }) :
    Advances m (events, { m with shared := { m.shared with inner, token } }) := by
  refine ⟨hstep, hm.handed, hm.placed.congr rfl rfl rfl ?_ id⟩
  exact fun hend => hend.imp_left htoken

theorem advances_of_step? (hm : m.Consistent) {action : Action} {result : List Event × Machine σ}
    (h : m.step? action = some result) : Advances m result := by
  by_cases hwork : action.isWork = true
  · exact (works_of_step? hm hwork h).toAdvances
  · cases action with
    | add d => exact advances_of_add? hm h
    | begin p =>
      cases p with
      | refuse d e => exact absurd h (by simp [step?])
      | _ =>
        obtain ⟨hproducer, rfl⟩ := eq_of_whenIdle h
        exact advances_of_began hm hproducer _
    | setMetadata d =>
      obtain ⟨-, rfl⟩ := eq_of_whenIdle h
      exact advances_of_surroundings hm id (.setMetadata d)
    | info =>
      obtain ⟨hproducer, rfl⟩ := eq_of_whenIdle h
      exact advances_of_info hm hproducer
    | cancel =>
      obtain rfl := Option.some.inj h
      exact advances_of_surroundings hm (fun _ => rfl) .stutter
    | elapse millis =>
      obtain rfl := Option.some.inj h
      exact advances_of_surroundings hm id (.elapse millis)
    | _ => exact absurd rfl hwork

/-- A step that begins no operation adds nothing to what is left to do. -/
theorem work_le_of_step? (hm : m.Consistent) {action : Action} (hbegin : action.isBegin = false)
    {result : List Event × Machine σ} (h : m.step? action = some result) :
    result.2.work + (if action.isWork then 1 else 0) ≤ m.work := by
  by_cases hwork : action.isWork = true
  · rw [if_pos hwork]
    exact (works_of_step? hm hwork h).work_lt
  · rw [if_neg hwork]
    cases action with
    | setMetadata d =>
      obtain ⟨-, rfl⟩ := eq_of_whenIdle h
      exact Nat.le_refl _
    | cancel =>
      obtain rfl := Option.some.inj h
      exact Nat.le_refl _
    | elapse millis =>
      obtain rfl := Option.some.inj h
      exact Nat.le_refl _
    | add d => exact absurd hbegin (by simp [Action.isBegin])
    | info => exact absurd hbegin (by simp [Action.isBegin])
    | begin p => exact absurd hbegin (by simp [Action.isBegin])
    | _ => exact absurd rfl hwork

omit [Clocked σ] [Collector σ] in
/-- An operation that begins is not made for the sake of a sample. -/
theorem offered_began (m : Machine σ) {p : Purpose} (h : p.offered = []) : (m.began p).producer.offered = [] := by
  unfold began
  split
  · rfl
  · split
    · exact h
    · split
      · exact h
      · exact h

/-- About every sample that the producer is asked to add something is said when the producer is done with it. -/
theorem offered_of_step? (hm : m.Consistent) {action : Action} {result : List Event × Machine σ}
    (h : m.step? action = some result) :
    m.producer.offered ++ action.offered = Event.answeredIn result.1 ++ result.2.producer.offered := by
  by_cases hwork : action.isWork = true
  · have hnone : action.offered = [] := by
      cases action with
      | add d => exact absurd hwork (by simp [Action.isWork])
      | _ => rfl
    rw [hnone, List.append_nil]
    exact (works_of_step? hm hwork h).offered_eq
  · cases action with
    | add d =>
      rw [step?, add?] at h
      split at h
      · next hproducer =>
        rw [hproducer]
        split at h
        · obtain rfl := Option.some.inj h
          rw [hproducer]
          rfl
        · split at h
          · obtain rfl := Option.some.inj h
            rfl
          · obtain rfl := Option.some.inj h
            rw [hproducer]
            rfl
      · exact absurd h (by simp)
    | begin p =>
      have hbegan : p.offered = [] ∧ m.whenIdle ([], m.began p) = some result := by
        cases p with
        | refuse d e => exact absurd h (by simp [step?])
        | _ => exact ⟨rfl, h⟩
      obtain ⟨hproducer, rfl⟩ := eq_of_whenIdle hbegan.2
      rw [hproducer]
      exact (offered_began m hbegan.1).symm
    | setMetadata d =>
      obtain ⟨-, rfl⟩ := eq_of_whenIdle h
      exact List.append_nil _
    | info =>
      obtain ⟨hproducer, rfl⟩ := eq_of_whenIdle h
      rw [hproducer]
      rfl
    | cancel =>
      obtain rfl := Option.some.inj h
      exact List.append_nil _
    | elapse millis =>
      obtain rfl := Option.some.inj h
      exact List.append_nil _
    | _ => exact absurd rfl hwork

/-! ## Runs -/

theorem run?_cons {action : Action} {actions : List Action} {result : List Event × Machine σ}
    (h : m.run? (action :: actions) = some result) :
    ∃ events m' more, m.step? action = some (events, m') ∧ m'.run? actions = some (more, result.2) ∧
      result.1 = events ++ more := by
  rw [run?] at h
  obtain ⟨⟨events, m'⟩, hstep, h⟩ := Option.bind_eq_some_iff.mp h
  obtain ⟨⟨more, m''⟩, hrun, h⟩ := Option.bind_eq_some_iff.mp h
  obtain rfl := Option.some.inj h
  exact ⟨events, m', more, hstep, hrun, rfl⟩

/-- Whatever producer and worker do, and in whatever order, is a run of the pipe. -/
theorem run_of_run? (hm : m.Consistent) {actions : List Action} {events : List Event}
    (h : m.run? actions = some (events, m')) : m'.Consistent ∧ Pipe.Run m.pipe events m'.pipe := by
  -- the runs of a pipe grow at their end
  suffices hfrom : ∀ {p : Pipe σ} {before : List Event}, Pipe.Run p before m.pipe →
      m'.Consistent ∧ Pipe.Run p (before ++ events) m'.pipe from hfrom .start
  induction actions generalizing m events with
  | nil =>
    intro p before hbefore
    obtain ⟨rfl, rfl⟩ := Prod.mk.inj (Option.some.inj h)
    exact ⟨hm, by rwa [List.append_nil]⟩
  | cons action actions ih =>
    intro p before hbefore
    obtain ⟨events', m₁, more, hstep, hrun, rfl⟩ := run?_cons h
    obtain ⟨hpipe, hconsistent⟩ := advances_of_step? hm hstep
    rw [← List.append_assoc]
    exact ih hconsistent hrun (hbefore.step hpipe)

/-- Every sample that the producer was asked to add has been accepted or refused, once and in order, but for one
that it may not be done with. -/
theorem offered_of_run? (hm : m.Consistent) {actions : List Action} {events : List Event}
    (h : m.run? actions = some (events, m')) :
    m.producer.offered ++ actions.flatMap Action.offered = Event.answeredIn events ++ m'.producer.offered := by
  induction actions generalizing m events with
  | nil =>
    obtain ⟨rfl, rfl⟩ := Prod.mk.inj (Option.some.inj h)
    exact List.append_nil _
  | cons action actions ih =>
    obtain ⟨events', m₁, more, hstep, hrun, rfl⟩ := run?_cons h
    have hanswered : Event.answeredIn (events' ++ more) = Event.answeredIn events' ++ Event.answeredIn more :=
      List.filterMap_append
    rw [List.flatMap_cons, ← List.append_assoc, offered_of_step? hm hstep, List.append_assoc,
      ih (advances_of_step? hm hstep).consistent hrun, hanswered, List.append_assoc]

/-- As long as no operation begins, producer and worker come to an end. -/
theorem work_le_of_run? (hm : m.Consistent) {actions : List Action} {events : List Event}
    (hbegin : ∀ action ∈ actions, action.isBegin = false) (h : m.run? actions = some (events, m')) :
    m'.work + (actions.filter Action.isWork).length ≤ m.work := by
  induction actions generalizing m events with
  | nil =>
    obtain ⟨rfl, rfl⟩ := Prod.mk.inj (Option.some.inj h)
    exact Nat.le_refl _
  | cons action actions ih =>
    obtain ⟨hfirst, hmore⟩ := List.forall_mem_cons.mp hbegin
    obtain ⟨events', m₁, more, hstep, hrun, -⟩ := run?_cons h
    have hle := work_le_of_step? hm hfirst hstep
    have hrest := ih (advances_of_step? hm hstep).consistent hmore hrun
    rw [List.filter_cons]
    split
    · next hwork =>
      rw [if_pos hwork] at hle
      rw [List.length_cons]
      dsimp only at hle hrest
      omega
    · next hwork =>
      rw [if_neg hwork] at hle
      dsimp only at hle hrest
      omega

omit [Collector σ] [Clocked σ] in
theorem consistent_start (token : CancelToken) (capacity : Nat) (inner : σ) :
    (start token capacity inner).Consistent :=
  ⟨fun _ => rfl, fun _ h => absurd h List.not_mem_nil, fun _ => rfl⟩

/-! ## Nobody waits for ever -/

/-- A worker can make a step, unless it has ended or waits for a message or the end. -/
theorem worker_cases (m : Machine σ) :
    (∃ action : Action, action.isWork = true ∧ (m.step? action).isSome = true) ∨ m.hasEnded = true ∨
      m.worker = .waiting ∧ m.shared.queue = [] ∧ ¬ m.WillEnd := by
  cases hworker : m.worker with
  | waiting =>
    cases hqueue : m.shared.queue with
    | cons message queue => exact .inl ⟨.take, rfl, by simp [step?, take?, hworker, hqueue]⟩
    | nil =>
      by_cases hend : m.WillEnd
      · refine .inl ?_
        rcases hend with hcancelled | hclosed | hended
        · exact ⟨.notice, rfl, by simp [step?, notice?, hworker, hcancelled]⟩
        · exact ⟨.leave, rfl, by simp [step?, leave?, hworker, hqueue, hclosed]⟩
        · simp [hasEnded, hworker] at hended
      · exact .inr (.inr ⟨rfl, rfl, hend⟩)
  | holding message => exact .inl ⟨.apply, rfl, by simp [step?, applyHeld?, hworker]⟩
  | collecting taken =>
    refine .inl ⟨.collect, rfl, ?_⟩
    cases hqueue : m.shared.queue <;> simp [step?, collect?, hworker, hqueue]
  | draining left =>
    cases left with
    | nil => exact .inl ⟨.leave, rfl, by simp [step?, leave?, hworker]⟩
    | cons message left => exact .inl ⟨.apply, rfl, by simp [step?, applyHeld?, hworker]⟩
  | ended => exact .inr (.inl (by rw [hasEnded, hworker]))

omit [Collector σ] [Clocked σ] in
/-- A worker that waits before an empty queue takes a message from the producer, or the queue has room for it. -/
theorem isSome_offer? (hworker : m.worker = .waiting) (hqueue : m.shared.queue = []) (message : Message) :
    (m.offer? message).isSome = true ∧ (m.handOver? message).isSome = true := by
  have hoffer : (m.offer? message).isSome = true := by
    rw [offer?, hqueue]
    by_cases hroom : 0 < m.shared.capacity
    · simp [hroom]
    · simp [Nat.eq_zero_of_not_pos hroom, hworker]
  refine ⟨hoffer, ?_⟩
  rw [handOver?, hworker]
  exact hoffer

/-- In the middle of an operation there is always a step to make. -/
theorem exists_step (hm : m.Consistent) (h : m.producer ≠ .idle) :
    ∃ action : Action, action.isWork = true ∧ (m.step? action).isSome = true := by
  cases hproducer : m.producer with
  | idle => exact absurd hproducer h
  | counted d =>
    by_cases hroom : m.shared.queue.length < m.shared.capacity
    · exact ⟨.send, rfl, by simp [step?, send?, hproducer, offer?, hroom]⟩
    · exact ⟨.block, rfl, by simp [step?, block?, hproducer, Nat.not_lt.mp hroom]⟩
  | blocked d =>
    rcases worker_cases m with hstep | hended | ⟨hworker, hqueue, -⟩
    · exact hstep
    · exact ⟨.heedEnd, rfl, by simp [step?, stopWaiting?, hproducer, hended]⟩
    · refine ⟨.send, rfl, ?_⟩
      simp [step?, send?, hproducer, (isSome_offer? hworker hqueue _).2]
  | returning d e =>
    refine ⟨.giveBack, rfl, ?_⟩
    simp only [step?, giveBack?, hproducer]
    split <;> rfl
  | flushing p =>
    rcases worker_cases m with hstep | hended | ⟨hworker, hqueue, -⟩
    · exact hstep
    · exact ⟨.heedEnd, rfl, by simp [step?, stopWaiting?, hproducer, hended]⟩
    · refine ⟨.send, rfl, ?_⟩
      simp [step?, send?, hproducer, (isSome_offer? hworker hqueue _).2]
  | awaiting p =>
    obtain ⟨-, ⟨-, hflush⟩ | ⟨hanswered, -⟩⟩ := hm.placedAt hproducer
    · rcases worker_cases m with hstep | hended | ⟨hworker, hqueue, -⟩
      · exact hstep
      · exact ⟨.heedEnd, rfl, by simp [step?, stopWaiting?, hproducer, hended]⟩
      · -- a request that has not been answered is in the line
        obtain ⟨samples, -, hline⟩ := hflush
        simp [line, hworker, hproducer, hqueue, WorkerState.inHand, ProducerState.inHand] at hline
    · exact ⟨.receiveAnswer, rfl, by simp [step?, hproducer, hanswered]⟩
  | joining p =>
    rcases worker_cases m with hstep | hended | ⟨-, -, hnot⟩
    · exact hstep
    · exact ⟨.join, rfl, by simp [step?, join?, hproducer, hended]⟩
    · exact absurd (hm.placedAt hproducer) hnot
  | applying p left =>
    refine ⟨.applyLeft, rfl, ?_⟩
    cases left <;> simp [step?, applyLeft?, hproducer]
  | finishing p => exact ⟨.finish, rfl, by simp [step?, hproducer]⟩
  | telling held => exact ⟨.tell, rfl, by simp [step?, tell?, hproducer]⟩

end Machine

end Telemetry.Buffered

import Telemetry.Proofs.Collector.Buffered.Rest
import Telemetry.Zlib.Stored

/-!
# What is pending, and what is told of it

What is pending of a buffered collector is what has been accepted and not applied, and one more exactly while the
producer has counted a sample that it has neither sent nor given back. So what the producer is told would miss no sample
and count none twice if it were read at one moment. But the wrapped collector is asked first and what is pending is read
afterwards: a sample that is applied in between is told in neither (`Machine.counts_unless_applied_between`).

## Shape of the proof

That what is pending is on its way holds at any moment (`Machine.Sound`), and so does that the samples on their way
stand in a line (`Machine.run_of_run?`). A step of the line moves samples through it, and `Machine.tallies_of_step?`
says what a step does to the samples that are not in it yet; the rest is adding up (`Machine.counts_of_step?`). While the
producer is about to tell, nothing joins the line (`Machine.told_of_telling`).
-/

namespace Telemetry.Buffered

/-- How many samples an action counts: beginning to add one counts it, unless it is refused at once. -/
def Action.counted : Action → List Event → Nat
  | .add _, [] => 1
  | _, _ => 0

/-- How many samples an action gives back. -/
def Action.givenBack : Action → Nat
  | .giveBack => 1
  | _ => 0

/-- The samples among messages are as many as the messages weigh. -/
theorem length_filterMap_sample? (messages : List Message) :
    (messages.filterMap Message.sample?).length = samplesIn messages := by
  induction messages with
  | nil => rfl
  | cons message messages ih =>
    rw [samplesIn_cons, ← ih]
    cases message with
    | sample d => exact Nat.add_comm _ _
    | flush => exact (Nat.zero_add _).symm

namespace Machine

variable {σ : Type} {capacity : Nat} {m m' : Machine σ}

/-! ## Samples that are counted and not sent -/

/-- What a step does to the samples that the producer has counted and not sent: a sample is counted, and then it is
sent or given back. When something is given back or begun anew, or the collector is closed, the producer is done. -/
structure Tallies (m : Machine σ) (action : Action) (result : List Event × Machine σ) : Prop where
  unsent_eq : result.2.producer.unsent + ((Event.acceptedIn result.1).length + action.givenBack) =
    m.producer.unsent + action.counted result.1
  idle_of_settled : (∃ event ∈ result.1, event.isSettled = true) → result.2.producer = .idle

/-- A step of which nothing can be observed, and in which no sample is counted, sent or given back. -/
theorem Tallies.silent {action : Action} (hunsent : m'.producer.unsent = m.producer.unsent)
    (hcounted : action.counted [] = 0) (hback : action.givenBack = 0) : Tallies m action ([], m') :=
  ⟨by simp [hunsent, hcounted, hback, Event.acceptedIn], by simp⟩

theorem tallies_of_add? {d : Document} {result : List Event × Machine σ} (hstep : m.add? d = some result) :
    Tallies m (.add d) result := by
  unfold add? at hstep
  split at hstep
  · next hproducer =>
    split at hstep
    · obtain rfl := Option.some.inj hstep
      exact ⟨rfl, fun _ => hproducer⟩
    · split at hstep
      · obtain rfl := Option.some.inj hstep
        exact ⟨by rw [hproducer]; rfl, by simp⟩
      · obtain rfl := Option.some.inj hstep
        exact ⟨rfl, fun _ => hproducer⟩
  · exact absurd hstep (by simp)

theorem tallies_of_send? {result : List Event × Machine σ} (hstep : m.send? = some result) :
    Tallies m .send result := by
  unfold send? at hstep
  split at hstep
  · next d hproducer =>
    obtain ⟨n, -, rfl⟩ := Option.map_eq_some_iff.mp hstep
    exact ⟨by rw [hproducer]; rfl, fun _ => rfl⟩
  · next d hproducer =>
    obtain ⟨n, -, rfl⟩ := Option.map_eq_some_iff.mp hstep
    exact ⟨by rw [hproducer]; rfl, fun _ => rfl⟩
  · next p hproducer =>
    obtain ⟨n, -, rfl⟩ := Option.map_eq_some_iff.mp hstep
    exact .silent (by rw [hproducer]; rfl) rfl rfl
  · exact absurd hstep (by simp)

theorem tallies_of_block? {result : List Event × Machine σ} (hstep : m.block? = some result) :
    Tallies m .block result := by
  unfold block? at hstep
  split at hstep
  · next d hproducer =>
    split at hstep
    · obtain rfl := Option.some.inj hstep
      exact .silent (by rw [hproducer]; rfl) rfl rfl
    · exact absurd hstep (by simp)
  · exact absurd hstep (by simp)

/-- A sample that will not be sent is still counted. -/
theorem tallies_of_stopWaiting? {action : Action} (hcounted : action.counted [] = 0) (hback : action.givenBack = 0)
    {e : Error} {result : List Event × Machine σ} (hstep : m.stopWaiting? e = some result) :
    Tallies m action result := by
  unfold stopWaiting? at hstep
  split at hstep
  · next d hproducer =>
    obtain rfl := Option.some.inj hstep
    exact .silent (by rw [hproducer]; rfl) hcounted hback
  · next p hproducer =>
    obtain rfl := Option.some.inj hstep
    exact .silent (by rw [hproducer]; rfl) hcounted hback
  · next p hproducer =>
    obtain rfl := Option.some.inj hstep
    exact .silent (by rw [hproducer]; rfl) hcounted hback
  · exact absurd hstep (by simp)

theorem tallies_of_giveBack? {result : List Event × Machine σ} (hstep : m.giveBack? = some result) :
    Tallies m .giveBack result := by
  unfold giveBack? at hstep
  split at hstep
  · next d e hproducer =>
    dsimp only at hstep
    split at hstep
    · obtain rfl := Option.some.inj hstep
      exact ⟨by rw [hproducer]; rfl, fun _ => rfl⟩
    · obtain rfl := Option.some.inj hstep
      exact ⟨by rw [hproducer]; rfl, by simp⟩
  · exact absurd hstep (by simp)

theorem tallies_of_join? {result : List Event × Machine σ} (hstep : m.join? = some result) :
    Tallies m .join result := by
  unfold join? at hstep
  split at hstep
  · next p hproducer =>
    split at hstep
    · obtain rfl := Option.some.inj hstep
      exact .silent (by rw [hproducer]; rfl) rfl rfl
    · exact absurd hstep (by simp)
  · exact absurd hstep (by simp)

theorem tallies_of_began (hproducer : m.producer = .idle) (p p' : Purpose) :
    Tallies m (.begin p) ([], m.began p') := by
  refine .silent ?_ rfl rfl
  rw [hproducer, Machine.began.eq_def]
  split
  · rfl
  · split
    · rfl
    · split <;> rfl

/-- What the worker does before and after it applies messages does not concern the producer. -/
theorem silent_of_worker {result : List Event × Machine σ}
    (hstep : m.take? = some result ∨ m.notice? = some result ∨ m.collect? = some result ∨ m.leave? = some result) :
    result.1 = [] ∧ result.2.producer = m.producer := by
  rcases hstep with hstep | hstep | hstep | hstep
  · unfold take? at hstep
    split at hstep
    · obtain rfl := Option.some.inj hstep
      exact ⟨rfl, rfl⟩
    · exact absurd hstep (by simp)
  · unfold notice? at hstep
    split at hstep
    · split at hstep
      · obtain rfl := Option.some.inj hstep
        exact ⟨rfl, rfl⟩
      · exact absurd hstep (by simp)
    · exact absurd hstep (by simp)
  · unfold collect? at hstep
    split at hstep
    · obtain rfl := Option.some.inj hstep
      exact ⟨rfl, rfl⟩
    · obtain rfl := Option.some.inj hstep
      exact ⟨rfl, rfl⟩
    · exact absurd hstep (by simp)
  · unfold leave? at hstep
    split at hstep
    · obtain rfl := Option.some.inj hstep
      exact ⟨rfl, rfl⟩
    · split at hstep
      · obtain rfl := Option.some.inj hstep
        exact ⟨rfl, rfl⟩
      · exact absurd hstep (by simp)
    · exact absurd hstep (by simp)

theorem tallies_of_worker {action : Action} (hcounted : action.counted [] = 0) (hback : action.givenBack = 0)
    {result : List Event × Machine σ}
    (hstep : m.take? = some result ∨ m.notice? = some result ∨ m.collect? = some result ∨ m.leave? = some result) :
    Tallies m action result := by
  obtain ⟨events, m'⟩ := result
  obtain ⟨rfl, hproducer⟩ := silent_of_worker hstep
  exact .silent (by rw [hproducer]) hcounted hback

theorem tallies_of_tell? {result : List Event × Machine σ} (hstep : m.tell? = some result) :
    Tallies m .tell result := by
  unfold tell? at hstep
  split at hstep
  · next held hproducer =>
    obtain rfl := Option.some.inj hstep
    exact ⟨by rw [hproducer]; rfl, fun _ => rfl⟩
  · exact absurd hstep (by simp)

variable [Collector σ]

/-- A message that is applied has been sent before. -/
theorem Tallies.ofMessage {action : Action} {message : Message} (hunsent : m'.producer.unsent = m.producer.unsent)
    (hcounted : ∀ events, action.counted events = 0) (hback : action.givenBack = 0) :
    Tallies m action (Event.ofMessage m.shared.inner message, m') := by
  cases message with
  | flush => exact .silent hunsent (hcounted []) hback
  | sample d =>
    exact ⟨by simp [hunsent, hcounted, hback, Event.ofMessage, Event.acceptedIn], by
      simp [Event.ofMessage, Event.isSettled]⟩

theorem tallies_of_applyLeft? {result : List Event × Machine σ} (hstep : m.applyLeft? = some result) :
    Tallies m .applyLeft result := by
  unfold applyLeft? at hstep
  split at hstep
  · next p message left hproducer =>
    obtain rfl := Option.some.inj hstep
    exact .ofMessage (by rw [hproducer]; rfl) (fun _ => rfl) rfl
  · next p hproducer =>
    obtain rfl := Option.some.inj hstep
    exact .silent (by rw [hproducer]; rfl) rfl rfl
  · exact absurd hstep (by simp)

theorem tallies_of_finished {p : Purpose} (hproducer : m.producer = .finishing p) :
    Tallies m .finish (m.finished p) := by
  refine ⟨?_, fun _ => ?_⟩
  · rw [hproducer]
    cases p <;> rfl
  · cases p <;> rfl

theorem tallies_of_applyHeld? {result : List Event × Machine σ} (hstep : m.applyHeld? = some result) :
    Tallies m .apply result := by
  unfold applyHeld? at hstep
  split at hstep
  · obtain rfl := Option.some.inj hstep
    exact .ofMessage rfl (fun _ => rfl) rfl
  · obtain rfl := Option.some.inj hstep
    exact .ofMessage rfl (fun _ => rfl) rfl
  · exact absurd hstep (by simp)

variable [Clocked σ]

/-- Every step counts a sample, sends it, gives it back, or does none of these. -/
theorem tallies_of_step? {action : Action} {result : List Event × Machine σ} (hstep : m.step? action = some result) :
    Tallies m action result := by
  cases action with
  | add d => exact tallies_of_add? hstep
  | send => exact tallies_of_send? hstep
  | block => exact tallies_of_block? hstep
  | heedSignal =>
    rw [step?] at hstep
    split at hstep
    · exact tallies_of_stopWaiting? rfl rfl hstep
    · exact absurd hstep (by simp)
  | heedEnd =>
    rw [step?] at hstep
    split at hstep
    · exact tallies_of_stopWaiting? rfl rfl hstep
    · exact absurd hstep (by simp)
  | giveBack => exact tallies_of_giveBack? hstep
  | setMetadata d =>
    obtain ⟨hproducer, rfl⟩ := eq_of_whenIdle hstep
    exact ⟨rfl, fun _ => hproducer⟩
  | info =>
    obtain ⟨hproducer, rfl⟩ := eq_of_whenIdle hstep
    exact .silent (by rw [hproducer]; rfl) rfl rfl
  | begin p =>
    cases p with
    | refuse d e => exact absurd hstep (by simp [step?])
    | _ =>
      obtain ⟨hproducer, rfl⟩ := eq_of_whenIdle hstep
      exact tallies_of_began hproducer _ _
  | receiveAnswer =>
    rw [step?] at hstep
    split at hstep
    · next p hproducer =>
      split at hstep
      · obtain rfl := Option.some.inj hstep
        exact .silent (by rw [hproducer]; rfl) rfl rfl
      · exact absurd hstep (by simp)
    · exact absurd hstep (by simp)
  | join => exact tallies_of_join? hstep
  | applyLeft => exact tallies_of_applyLeft? hstep
  | finish =>
    rw [step?] at hstep
    split at hstep
    · next p hproducer =>
      obtain rfl := Option.some.inj hstep
      exact tallies_of_finished hproducer
    · exact absurd hstep (by simp)
  | tell => exact tallies_of_tell? hstep
  | take => exact tallies_of_worker rfl rfl (.inl hstep)
  | apply => exact tallies_of_applyHeld? hstep
  | notice => exact tallies_of_worker rfl rfl (.inr (.inl hstep))
  | collect => exact tallies_of_worker rfl rfl (.inr (.inr (.inl hstep)))
  | leave => exact tallies_of_worker rfl rfl (.inr (.inr (.inr hstep)))
  | cancel =>
    obtain rfl := Option.some.inj hstep
    exact .silent rfl rfl rfl
  | elapse millis =>
    obtain rfl := Option.some.inj hstep
    refine ⟨rfl, ?_⟩
    rintro ⟨event, hevent, hsettled⟩
    rw [List.mem_singleton.mp hevent] at hsettled
    exact absurd hsettled Bool.false_ne_true

/-! ## Samples that are pending -/

omit [Collector σ] [Clocked σ] in
/-- What waits in the line is in the queue, or has been taken from it and not been applied. -/
theorem length_waiting (m : Machine σ) : m.pipe.waiting.length =
    samplesIn m.shared.queue + (samplesIn m.worker.inHand + samplesIn m.producer.inHand) := by
  have hwaiting : m.pipe.waiting.length = samplesIn m.line := length_filterMap_sample? m.line
  rw [hwaiting, line, samplesIn_append, samplesIn_append]
  omega

omit [Collector σ] [Clocked σ] in
/-- What is pending waits in the line, or has been counted and not been sent. -/
theorem Sound.pending_eq_waiting (h : m.Sound capacity) :
    m.shared.pending = m.pipe.waiting.length + m.producer.unsent := by
  have hpending := h.pending_eq
  unfold onTheWay at hpending
  rw [length_waiting]
  omega

/-- What one step does to what is pending: a sample that is counted adds one, and one that is applied or given back
takes one away, which is there to be taken. -/
theorem counts_of_step? (hm : m.Consistent) (h : m.Sound capacity) {action : Action} {events : List Event}
    (hstep : m.step? action = some (events, m')) :
    m'.shared.pending + ((Event.appliedIn events).length + action.givenBack) =
        m.shared.pending + action.counted events ∧
      (Event.appliedIn events).length + action.givenBack ≤ m.shared.pending := by
  obtain ⟨hpipe, -⟩ := advances_of_step? hm hstep
  have hunsent : m'.producer.unsent + ((Event.acceptedIn events).length + action.givenBack) =
      m.producer.unsent + action.counted events := (tallies_of_step? hstep).unsent_eq
  have hpending := h.pending_eq_waiting
  have hpending' : m'.shared.pending = m'.pipe.waiting.length + m'.producer.unsent :=
    (h.of_step? hstep).pending_eq_waiting
  have hline : m.pipe.waiting.length + (Event.acceptedIn events).length =
      (Event.appliedIn events).length + m'.pipe.waiting.length := by
    have hwaiting := congrArg List.length hpipe.waiting_eq
    rwa [List.length_append, List.length_append] at hwaiting
  have hmoves : (Event.acceptedIn events).length + (Event.appliedIn events).length ≤ 1 := hpipe.moves_le
  -- no action both counts a sample and gives one back
  have honce : action.givenBack = 0 ∨ action.counted events = 0 := by
    cases action with
    | giveBack => exact .inr rfl
    | _ => exact .inl rfl
  omega

/-- When something is given back or begun anew, or the collector is closed, nothing is pending. -/
theorem pending_eq_zero_of_settled (hm : m.Consistent) (h : m.Sound capacity) {action : Action} {events : List Event}
    (hstep : m.step? action = some (events, m')) (hsettled : ∃ event ∈ events, event.isSettled = true) :
    m'.shared.pending = 0 := by
  obtain ⟨hpipe, -⟩ := advances_of_step? hm hstep
  have hidle : m'.producer = .idle := (tallies_of_step? hstep).idle_of_settled hsettled
  have hpending' : m'.shared.pending = m'.pipe.waiting.length + m'.producer.unsent :=
    (h.of_step? hstep).pending_eq_waiting
  obtain ⟨event, hevent, hsettled⟩ := hsettled
  -- nothing else can be observed of the step
  obtain ⟨other, rfl⟩ := List.length_eq_one_iff.mp (Nat.le_antisymm hpipe.length_le (List.length_pos_of_mem hevent))
  obtain rfl := List.mem_singleton.mp hevent
  rw [hpending', hpipe.waiting_eq_nil_after hsettled, hidle]
  rfl

/-! ## What is told -/

/-- While the producer is about to tell, it stays where it stands, and nothing is accepted. -/
theorem telling_of_step? {held : Info} (hproducer : m.producer = .telling held) {action : Action}
    (htell : action ≠ .tell) {events : List Event} (hstep : m.step? action = some (events, m')) :
    m'.producer = .telling held ∧ Event.acceptedIn events = [] := by
  have hworker (h : m.take? = some (events, m') ∨ m.notice? = some (events, m') ∨ m.collect? = some (events, m') ∨
      m.leave? = some (events, m')) : m'.producer = .telling held ∧ Event.acceptedIn events = [] := by
    obtain ⟨rfl, hsame⟩ := silent_of_worker h
    exact ⟨hsame.trans hproducer, rfl⟩
  have hmessage (message : Message) : Event.acceptedIn (Event.ofMessage m.shared.inner message) = [] := by
    cases message <;> rfl
  cases action with
  | tell => exact absurd rfl htell
  | take => exact hworker (.inl hstep)
  | notice => exact hworker (.inr (.inl hstep))
  | collect => exact hworker (.inr (.inr (.inl hstep)))
  | leave => exact hworker (.inr (.inr (.inr hstep)))
  | apply =>
    rw [step?, applyHeld?] at hstep
    split at hstep
    · obtain ⟨rfl, rfl⟩ := Prod.mk.inj (Option.some.inj hstep)
      exact ⟨hproducer, hmessage _⟩
    · obtain ⟨rfl, rfl⟩ := Prod.mk.inj (Option.some.inj hstep)
      exact ⟨hproducer, hmessage _⟩
    · exact absurd hstep (by simp)
  | cancel =>
    obtain ⟨rfl, rfl⟩ := Prod.mk.inj (Option.some.inj hstep)
    exact ⟨hproducer, rfl⟩
  | elapse millis =>
    obtain ⟨rfl, rfl⟩ := Prod.mk.inj (Option.some.inj hstep)
    exact ⟨hproducer, rfl⟩
  | begin p => cases p <;> simp [step?, whenIdle, hproducer] at hstep
  -- the producer can do nothing else
  | _ => simp [step?, whenIdle, add?, send?, block?, stopWaiting?, giveBack?, join?, applyLeft?, hproducer] at hstep

/-- What the producer tells is what it has been told before, and the samples that still wait when it tells it. -/
theorem told_of_telling (hm : m.Consistent) (h : m.Sound capacity) {held : Info} (hproducer : m.producer = .telling held)
    {between : List Action} (hbetween : .tell ∉ between) {events : List Event}
    (hrun : m.run? (between ++ [.tell]) = some (events, m')) :
    ∃ meanwhile left, m.pipe.waiting = Event.appliedIn meanwhile ++ left ∧
      events = meanwhile ++ [.told { held with samples := held.samples + left.length }] := by
  induction between generalizing m events with
  | nil =>
    have hpending := h.pending_eq_waiting
    rw [hproducer] at hpending
    obtain ⟨events', m₁, more, hstep, hnone, rfl⟩ := run?_cons hrun
    obtain ⟨rfl, -⟩ := Prod.mk.inj (Option.some.inj hnone)
    rw [step?, tell?, hproducer] at hstep
    obtain ⟨rfl, -⟩ := Prod.mk.inj (Option.some.inj hstep)
    exact ⟨[], m.pipe.waiting, rfl, by rw [withPending, hpending]; rfl⟩
  | cons action between ih =>
    obtain ⟨hfirst, hrest⟩ := not_or.mp (List.mem_cons.not.mp hbetween)
    obtain ⟨events', m₁, more, hstep, hmore, rfl⟩ := run?_cons hrun
    obtain ⟨hstays, hnone⟩ := telling_of_step? hproducer (Ne.symm hfirst) hstep
    obtain ⟨hpipe, hconsistent⟩ := advances_of_step? hm hstep
    obtain ⟨meanwhile, left, hwaiting, rfl⟩ := ih hconsistent (h.of_step? hstep) hstays hrest hmore
    have hline : m.pipe.waiting ++ Event.acceptedIn events' = Event.appliedIn events' ++ m₁.pipe.waiting :=
      hpipe.waiting_eq
    refine ⟨events' ++ meanwhile, left, ?_, (List.append_assoc ..).symm⟩
    rw [hnone, List.append_nil] at hline
    rw [hline, hwaiting, Pipe.appliedIn_append, List.append_assoc]

/-- What is true of the counts of a machine, after what has been observed of it.

What is pending is the samples in the queue and those taken from it and not applied, which are those accepted and not
applied, and one more while the producer has counted a sample and neither sent it nor given it back. Counting a sample
adds one to what is pending; applying or giving back takes one away, and never from nothing. When something has been
given back or begun anew, or the collector has been closed, the two counts are the same.

What the producer is told is what the wrapped collector held when it was asked, and those of the samples accepted and
not applied then that have still not been applied when what is pending is read. An idle producer can ask, and if
nothing comes in between no sample is missed and none counted twice. -/
structure Counts (m : Machine σ) (events : List Event) : Prop where
  pending_eq : m.shared.pending = samplesIn m.shared.queue +
    (samplesIn m.worker.inHand + samplesIn m.producer.inHand) + m.producer.unsent
  accepted_eq : ∃ waiting, Event.acceptedIn events = Event.appliedIn events ++ waiting ∧
    waiting.length = samplesIn m.shared.queue + (samplesIn m.worker.inHand + samplesIn m.producer.inHand)
  step : ∀ action events' m', m.step? action = some (events', m') →
    m'.producer.unsent + ((Event.acceptedIn events').length + action.givenBack) =
      m.producer.unsent + action.counted events' ∧
    m'.shared.pending + ((Event.appliedIn events').length + action.givenBack) =
      m.shared.pending + action.counted events' ∧
    (Event.appliedIn events').length + action.givenBack ≤ m.shared.pending
  settled : ∀ action events' m', m.step? action = some (events', m') → (∃ event ∈ events', event.isSettled = true) →
    m'.shared.pending = 0 ∧ m'.shared.info = Collector.info m'.shared.inner
  told : ∀ between events' m', .tell ∉ between → m.run? (.info :: (between ++ [.tell])) = some (events', m') →
    ∃ waiting meanwhile left, Event.acceptedIn events = Event.appliedIn events ++ waiting ∧
      waiting = Event.appliedIn meanwhile ++ left ∧
      events' = meanwhile ++ [.told { Collector.info m.shared.inner with
        samples := (Collector.info m.shared.inner).samples + left.length }]
  told_at_once : m.producer = .idle → ∃ waiting, Event.acceptedIn events = Event.appliedIn events ++ waiting ∧
    m.run? [.info, .tell] = some ([.told { Collector.info m.shared.inner with
      samples := (Collector.info m.shared.inner).samples + waiting.length }], m)

/-- At any moment, whatever producer and worker do and whenever the signal is given, what is pending is counted exactly.

What the producer is told is read one after the other, and not at one moment: samples that the worker applies in
between are missing from it. Otherwise it is exact. -/
theorem counts_unless_applied_between (token : CancelToken) (capacity : Nat) (inner : σ) {actions : List Action}
    {events : List Event} (hrun : (start token capacity inner).run? actions = some (events, m)) :
    m.Counts events := by
  obtain ⟨hm, hpipe⟩ := run_of_run? (consistent_start token capacity inner) hrun
  have hsound : m.Sound capacity := (sound_start token capacity inner).of_run? hrun
  have hwaiting := hsound.pending_eq_waiting
  exact {
    pending_eq := length_waiting m ▸ hwaiting
    accepted_eq := ⟨m.pipe.waiting, hpipe.accepted_eq, length_waiting m⟩
    step := fun action events' m' hstep =>
      ⟨(tallies_of_step? hstep).unsent_eq, counts_of_step? hm hsound hstep⟩
    settled := fun action events' m' hstep hsettled => by
      have hzero := pending_eq_zero_of_settled hm hsound hstep hsettled
      exact ⟨hzero, by rw [Buffered.info, withPending, hzero]; rfl⟩
    told := fun between events' m' hbetween hasked => by
      obtain ⟨asked, m₁, more, hinfo, hmore, rfl⟩ := run?_cons hasked
      obtain ⟨hidle, heq⟩ := eq_of_whenIdle hinfo
      obtain ⟨rfl, rfl⟩ := Prod.mk.inj heq
      obtain ⟨meanwhile, left, hleft, rfl⟩ := told_of_telling (advances_of_info hm hidle).consistent
        (hsound.of_step? hinfo) rfl hbetween hmore
      rw [pipe_producerAt (by rw [hidle]; rfl)] at hleft
      exact ⟨m.pipe.waiting, meanwhile, left, hpipe.accepted_eq, hleft, rfl⟩
    told_at_once := fun hidle => by
      refine ⟨m.pipe.waiting, hpipe.accepted_eq, ?_⟩
      rw [hidle] at hwaiting
      obtain ⟨shared, worker, producer, isAnswered⟩ := m
      obtain rfl : producer = .idle := hidle
      have hpending : shared.pending = (pipe ⟨shared, worker, .idle, isAnswered⟩).waiting.length := hwaiting
      rw [← hpending]
      rfl }

/-- The worker applies the one sample that was accepted after the wrapped collector has been asked and before what is
pending is read: nothing is told of it. -/
theorem counts_unless_applied_between_one_sample :
    ∃ m m', (start .fresh 1 ((Plan.batch 300 ⟨.stored, 6⟩).start Sink.empty .fresh)).run?
        [.add [("x", .int32 1)], .send, .take] = some ([.accepted [("x", .int32 1)]], m) ∧
      m.shared.pending = 1 ∧
      m.run? [.info, .apply, .tell] = some ([.applied [("x", .int32 1)] (.ok ()), .told ⟨0, 0⟩], m') ∧
      m'.shared.pending = 0 ∧ Collector.info m'.shared.inner = ⟨1, 1⟩ := by
  suffices hplaced : ∃ m m', (start .fresh 1 ((Plan.batch 300 ⟨.stored, 6⟩).start Sink.empty .fresh)).run? _ = some (_, m) ∧
      m.producer = .idle ∧ m.worker = .holding (.sample [("x", .int32 1)]) ∧ m.shared.queue = [] ∧
      m.run? [.info, .apply, .tell] = some ([.applied [("x", .int32 1)] (.ok ()), .told ⟨0, 0⟩], m') ∧
      m'.shared.pending = 0 ∧ Collector.info m'.shared.inner = ⟨1, 1⟩ by
    refine Exists.imp (fun m => Exists.imp fun m' ⟨hrun, hidle, hworker, hqueue, hasked⟩ => ⟨hrun, ?_, hasked⟩) hplaced
    have hpending := (counts_unless_applied_between .fresh 1 _ hrun).pending_eq
    rwa [hidle, hworker, hqueue] at hpending
  exact ⟨_, _, rfl, rfl, rfl, rfl, rfl, rfl, rfl⟩

end Machine

end Telemetry.Buffered

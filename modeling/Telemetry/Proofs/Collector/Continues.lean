import Telemetry.Proofs.Collector.Stack
import Telemetry.Proofs.Collector.Streaming
import Mathlib.Data.List.ModifyLast

/-!
# Stacks that go on where others begin

What a stack of collectors answers depends on its sink only as far as the sink refuses calls, and on its clock only as
far as time goes by. So of two stacks one may have a sink that has already taken something, and that much has been
counted, and its clock may be ahead: if the sinks refuse the same calls from now on, then whatever both are asked, they
answer alike, and what can be seen of them differs in what has been taken and counted before
(`Stack.Continues.record_eq`).

## Shape of the proof

A sink continues another if it has taken the same after something else, and both go on alike (`Sink.Continues`). For
each kind of collector the relation that follows is one that every operation respects (`Collector.Respects`). An
interval or a queue around a collector respects what the collector does (`Sampling.respects`, `Buffered.respects`); so a
stack does, whatever its design (`Plan.respects`).
-/

namespace Telemetry

open Collector

/-! ## Sinks that go on alike -/

/-- The calls made to one sink from now on go like those made to another: the same ones are refused. -/
structure Sink.GoesOnAs (s t : Sink) : Prop where
  refusesWrite_eq : ∀ n, s.refusesWrite (s.writes + n) = t.refusesWrite (t.writes + n)
  refusesFlush_eq : ∀ n, s.refusesFlush (s.flushes + n) = t.refusesFlush (t.flushes + n)

/-- One sink has taken the same as another after what it had taken earlier, and they go on alike. -/
structure Sink.Continues (earlier : Bytes) (s t : Sink) : Prop extends s.GoesOnAs t where
  contents_eq : s.contents = earlier ++ t.contents

namespace Sink

variable {earlier : Bytes} {s t : Sink}

theorem GoesOnAs.refl (s : Sink) : s.GoesOnAs s :=
  ⟨fun _ => rfl, fun _ => rfl⟩

theorem Continues.refl (s : Sink) : s.Continues [] s :=
  ⟨.refl s, rfl⟩

/-- Sinks still go on alike after a write call has been counted. -/
theorem GoesOnAs.countWrite (h : s.GoesOnAs t) (bytes bytes' : Bytes) :
    { s with contents := bytes, writes := s.writes + 1 }.GoesOnAs
      { t with contents := bytes', writes := t.writes + 1 } where
  refusesWrite_eq n := by
    have hnext := h.refusesWrite_eq (1 + n)
    rw [← Nat.add_assoc, ← Nat.add_assoc] at hnext
    exact hnext
  refusesFlush_eq := h.refusesFlush_eq

theorem Continues.write (h : s.Continues earlier t) (bytes : Bytes) :
    ∃ result s' t', s.write bytes = (result, s') ∧ t.write bytes = (result, t') ∧ s'.Continues earlier t' := by
  have hrefuses := h.refusesWrite_eq 0
  rw [Nat.add_zero, Nat.add_zero] at hrefuses
  rw [Sink.write, Sink.write, hrefuses]
  split
  · exact ⟨_, _, _, rfl, rfl, h.countWrite _ _, h.contents_eq⟩
  · exact ⟨_, _, _, rfl, rfl, h.countWrite _ _, by rw [h.contents_eq, List.append_assoc]⟩

theorem Continues.flush (h : s.Continues earlier t) :
    ∃ result s' t', s.flush = (result, s') ∧ t.flush = (result, t') ∧ s'.Continues earlier t' := by
  have hrefuses := h.refusesFlush_eq 0
  rw [Nat.add_zero, Nat.add_zero] at hrefuses
  have hcounted : { s with flushes := s.flushes + 1 }.Continues earlier { t with flushes := t.flushes + 1 } := by
    refine ⟨⟨h.refusesWrite_eq, fun n => ?_⟩, h.contents_eq⟩
    have hnext := h.refusesFlush_eq (1 + n)
    rw [← Nat.add_assoc, ← Nat.add_assoc] at hnext
    exact hnext
  rw [Sink.flush, Sink.flush]
  simp only [hrefuses]
  split
  · exact ⟨_, _, _, rfl, rfl, hcounted⟩
  · exact ⟨_, _, _, rfl, rfl, hcounted⟩

end Sink

/-! ## Collectors that answer alike -/

/-- Collectors in a relation answer alike and stay in it. -/
structure Collector.Respects {σ : Type} [Collector σ] (R : σ → σ → Prop) : Prop where
  add : ∀ {c d}, R c d → ∀ sample,
    ∃ result c' d', add sample c = (result, c') ∧ add sample d = (result, d') ∧ R c' d'
  setMetadata : ∀ {c d}, R c d → ∀ document, R (setMetadata document c) (setMetadata document d)
  resolve : ∀ {c d}, R c d → ∃ result c' d', resolve c = (result, c') ∧ resolve d = (result, d') ∧ R c' d'
  reset : ∀ {c d}, R c d → R (reset c) (reset d)
  info : ∀ {c d}, R c d → info c = info d

namespace Collector.Respects

variable {σ : Type} [Collector σ] {R : σ → σ → Prop}

/-- Equal collectors answer alike. -/
theorem eq : Respects fun c d : σ => c = d where
  add h _ := h ▸ ⟨_, _, _, rfl, rfl, rfl⟩
  setMetadata h _ := h ▸ rfl
  resolve h := h ▸ ⟨_, _, _, rfl, rfl, rfl⟩
  reset h := h ▸ rfl
  info h := h ▸ rfl

/-- What collectors in the relation hold is written alike to sinks that go on alike. -/
theorem flushInto (h : Respects R) {c d : σ} (hcd : R c d) {earlier : Bytes} {s t : Sink}
    (hst : s.Continues earlier t) :
    ∃ result c' d' s' t', flushInto c s = (result, c', s') ∧ flushInto d t = (result, d', t') ∧
      R c' d' ∧ s'.Continues earlier t' := by
  obtain ⟨resolved, c', d', hc, hd, hcd'⟩ := h.resolve hcd
  rw [Collector.flushInto, Collector.flushInto, h.info hcd, hc, hd]
  split
  · exact ⟨_, _, _, _, _, rfl, rfl, hcd, hst⟩
  · cases resolved with
    | error e => exact ⟨_, _, _, _, _, rfl, rfl, hcd', hst⟩
    | ok bytes =>
      obtain ⟨taken, s', t', hs, ht, hst'⟩ := hst.write bytes
      simp only [hs, ht]
      cases taken with
      | error e => exact ⟨_, _, _, _, _, rfl, rfl, hcd', hst'⟩
      | ok _ => exact ⟨_, _, _, _, _, rfl, rfl, h.reset hcd', hst'⟩

/-- What a JSON value stands for is taken alike. -/
theorem addJson (h : Respects R) {c d : σ} (hcd : R c d) (j : Json) :
    ∃ result c' d', addJson j c = (result, c') ∧ addJson j d = (result, d') ∧ R c' d' := by
  rw [Collector.addJson, Collector.addJson]
  split
  · exact h.add hcd _
  · exact ⟨_, _, _, rfl, rfl, hcd⟩

/-- What every collector can be asked is answered alike. -/
theorem serve (h : Respects R) {c d : σ} (hcd : R c d) (r : Request) :
    ∃ answer c' d', serve c r = (answer, c') ∧ serve d r = (answer, d') ∧ R c' d' := by
  cases r with
  | add sample =>
    obtain ⟨result, c', d', hc, hd, hcd'⟩ := h.add hcd sample
    simp only [Collector.serve, hc, hd]
    exact ⟨_, _, _, rfl, rfl, hcd'⟩
  | setMetadata document => exact ⟨_, _, _, rfl, rfl, h.setMetadata hcd document⟩
  | resolve =>
    obtain ⟨result, c', d', hc, hd, hcd'⟩ := h.resolve hcd
    simp only [Collector.serve, hc, hd]
    exact ⟨_, _, _, rfl, rfl, hcd'⟩
  | info =>
    simp only [Collector.serve, h.info hcd]
    exact ⟨_, _, _, rfl, rfl, hcd⟩
  | reset => exact ⟨_, _, _, rfl, rfl, h.reset hcd⟩

end Collector.Respects

/-! ## Collectors in front of sinks -/

/-- Two streaming collectors hold the same in front of sinks of which one continues the other; some chunks have been
counted earlier. -/
structure Streaming.Continues (earlier : Bytes) (written : Nat) (s t : Streaming) : Prop where
  sink : s.sink.Continues earlier t.sink
  maxSamples_eq : s.maxSamples = t.maxSamples
  current_eq : s.current = t.current
  chunksWritten_eq : s.chunksWritten = written + t.chunksWritten

namespace Streaming.Continues

variable {earlier : Bytes} {written : Nat} {s t : Streaming}

/-- In front of sinks of which one continues the other, nothing else need differ. -/
theorem of_sink {sink after : Sink} (h : sink.Continues earlier after) (s : Streaming) :
    { s with sink }.Continues earlier 0 { s with sink := after } :=
  ⟨h, rfl, rfl, (Nat.zero_add _).symm⟩

theorem setCurrent (h : s.Continues earlier written t) (w : Window) :
    { s with current := w }.Continues earlier written { t with current := w } :=
  ⟨h.sink, h.maxSamples_eq, rfl, h.chunksWritten_eq⟩

theorem writeChunk (h : s.Continues earlier written t) :
    ∃ result s' t', s.writeChunk = (result, s') ∧ t.writeChunk = (result, t') ∧ s'.Continues earlier written t' := by
  obtain ⟨result, w, w', u, v, hs, ht, rfl, huv⟩ := Respects.eq.flushInto h.current_eq h.sink
  rw [Streaming.writeChunk, Streaming.writeChunk, hs, ht, h.current_eq]
  split
  · exact ⟨_, _, _, rfl, rfl, h⟩
  · cases result with
    | error e => exact ⟨_, _, _, rfl, rfl, huv, h.maxSamples_eq, rfl, h.chunksWritten_eq⟩
    | ok _ => exact ⟨_, _, _, rfl, rfl, huv, h.maxSamples_eq, rfl, congrArg (· + 1) h.chunksWritten_eq⟩

theorem add (h : s.Continues earlier written t) (sample : Document) :
    ∃ result s' t', s.add sample = (result, s') ∧ t.add sample = (result, t') ∧ s'.Continues earlier written t' := by
  have hinfo : s.current.info = t.current.info := by rw [h.current_eq]
  by_cases hroom : s.current.info.samples < s.maxSamples
  · have hroom' : t.current.info.samples < t.maxSamples := by rwa [hinfo, h.maxSamples_eq] at hroom
    rw [add_of_room hroom, add_of_room hroom', h.current_eq]
    exact ⟨_, _, _, rfl, rfl, h.setCurrent _⟩
  · have hfull : s.maxSamples ≤ s.current.info.samples := Nat.le_of_not_lt hroom
    have hfull' : t.maxSamples ≤ t.current.info.samples := by rwa [hinfo, h.maxSamples_eq] at hfull
    obtain ⟨result, s', t', hs, ht, hst⟩ := h.writeChunk
    cases result with
    | error e =>
      rw [add_of_refused hfull hs, add_of_refused hfull' ht]
      exact ⟨_, _, _, rfl, rfl, hst⟩
    | ok _ =>
      rw [add_of_written hfull hs, add_of_written hfull' ht, hst.current_eq]
      exact ⟨_, _, _, rfl, rfl, hst.setCurrent _⟩

theorem flush (h : s.Continues earlier written t) :
    ∃ result s' t', s.flush = (result, s') ∧ t.flush = (result, t') ∧ s'.Continues earlier written t' := by
  obtain ⟨result, s', t', hs, ht, hst⟩ := h.writeChunk
  cases result with
  | error e =>
    rw [flush_of_refused hs, flush_of_refused ht]
    exact ⟨_, _, _, rfl, rfl, hst⟩
  | ok _ =>
    obtain ⟨flushed, u, v, hu, hv, huv⟩ := hst.sink.flush
    rw [flush_of_written hs, flush_of_written ht, hu, hv]
    exact ⟨_, _, _, rfl, rfl, huv, hst.maxSamples_eq, hst.current_eq, hst.chunksWritten_eq⟩

end Streaming.Continues

theorem Streaming.respects (earlier : Bytes) (written : Nat) : Respects (Streaming.Continues earlier written) where
  add h := h.add
  setMetadata {s t} h d := by
    have hset := h.setCurrent (t.current.setMetadata d)
    show (s.setMetadata d).Continues earlier written (t.setMetadata d)
    rw [setMetadata, h.current_eq]
    exact hset
  resolve {s t} h := ⟨_, s, t, rfl, by rw [h.current_eq]; rfl, h⟩
  reset {s t} h := by
    have hreset := h.setCurrent t.current.reset
    show s.reset.Continues earlier written t.reset
    rw [reset, h.current_eq]
    exact hreset
  info h := congrArg Window.info h.current_eq

/-- Two adaptive streaming collectors remember the same, and one continues the other. -/
structure AdaptiveStreaming.Continues (earlier : Bytes) (written : Nat) (s t : AdaptiveStreaming) : Prop where
  inner : s.inner.Continues earlier written t.inner
  fingerprint?_eq : s.fingerprint? = t.fingerprint?

namespace AdaptiveStreaming.Continues

variable {earlier : Bytes} {written : Nat} {s t : AdaptiveStreaming}

theorem turn (h : s.Continues earlier written t) (f : Fingerprint) :
    ∃ result s' t', s.turn f = (result, s') ∧ t.turn f = (result, t') ∧ s'.Continues earlier written t' := by
  by_cases hsame : ∀ g ∈ s.fingerprint?, g = f
  · have hsame' : ∀ g ∈ t.fingerprint?, g = f := h.fingerprint?_eq ▸ hsame
    rw [turn_same hsame, turn_same hsame']
    exact ⟨_, _, _, rfl, rfl, h⟩
  · push Not at hsame
    obtain ⟨g, hlast, hg⟩ := hsame
    have hlast' : t.fingerprint? = some g := h.fingerprint?_eq.symm.trans hlast
    obtain ⟨result, u, v, hu, hv, huv⟩ := h.inner.writeChunk
    rw [turn_other hlast hg, turn_other hlast' hg, hu, hv]
    exact ⟨_, _, _, rfl, rfl, huv, h.fingerprint?_eq⟩

theorem add (h : s.Continues earlier written t) (sample : Document) :
    ∃ result s' t', s.add sample = (result, s') ∧ t.add sample = (result, t') ∧ s'.Continues earlier written t' := by
  obtain ⟨result, s', t', hs, ht, hst⟩ := h.turn sample.fingerprint
  cases result with
  | error e =>
    rw [add_of_refused hs, add_of_refused ht]
    exact ⟨_, _, _, rfl, rfl, hst⟩
  | ok _ =>
    obtain ⟨taken, u, v, hu, hv, huv⟩ := hst.inner.add sample
    rw [AdaptiveStreaming.add, AdaptiveStreaming.add, hs, ht]
    simp only [hu, hv]
    cases taken with
    | error e => exact ⟨_, _, _, rfl, rfl, huv, hst.fingerprint?_eq⟩
    | ok _ => exact ⟨_, _, _, rfl, rfl, huv, rfl⟩

theorem flush (h : s.Continues earlier written t) :
    ∃ result s' t', s.flush = (result, s') ∧ t.flush = (result, t') ∧ s'.Continues earlier written t' := by
  obtain ⟨result, u, v, hu, hv, huv⟩ := h.inner.flush
  rw [AdaptiveStreaming.flush, AdaptiveStreaming.flush, hu, hv]
  exact ⟨_, _, _, rfl, rfl, huv, h.fingerprint?_eq⟩

end AdaptiveStreaming.Continues

theorem AdaptiveStreaming.respects (earlier : Bytes) (written : Nat) :
    Respects (AdaptiveStreaming.Continues earlier written) where
  add h := h.add
  setMetadata h d := ⟨(Streaming.respects earlier written).setMetadata h.inner d, h.fingerprint?_eq⟩
  resolve {s t} h := ⟨_, s, t, rfl, by rw [h.inner.current_eq]; rfl, h⟩
  reset h := ⟨(Streaming.respects earlier written).reset h.inner, rfl⟩
  info h := (Streaming.respects earlier written).info h.inner

/-! ## Collectors behind intervals and queues -/

/-- Two collectors behind intervals are related; the clock of the first may be ahead, by as much as before the last
sample was passed on. -/
structure Sampling.Continues {σ : Type} (R : σ → σ → Prop) (s t : Sampling σ) : Prop where
  interval_eq : s.interval = t.interval
  dropped_eq : s.dropped = t.dropped
  inner : R s.inner t.inner
  clock : ∃ offset, s.now = offset + t.now ∧ s.last? = t.last?.map (offset + ·)

namespace Sampling

variable {σ : Type} {R : σ → σ → Prop} {s t : Sampling σ}

/-- Behind one interval, collectors that are related stay so. -/
theorem Continues.of_inner {s : Sampling σ} {c : σ} (h : R s.inner c) : s.Continues R { s with inner := c } :=
  ⟨rfl, rfl, h, 0, (Nat.zero_add _).symm, by simp⟩

/-- What counts is how much time has gone by, so both pass a sample on or neither does. -/
theorem Continues.accepts_eq (h : s.Continues R t) : s.accepts = t.accepts := by
  obtain ⟨offset, hnow, hlast⟩ := h.clock
  rw [accepts, accepts, hnow, hlast, h.interval_eq]
  cases t.last? with
  | none => rfl
  | some last => simp only [Option.map_some, Nat.add_sub_add_left]

theorem Continues.elapse (h : s.Continues R t) (millis : Nat) : (s.elapse millis).Continues R (t.elapse millis) := by
  obtain ⟨offset, hnow, hlast⟩ := h.clock
  exact ⟨h.interval_eq, h.dropped_eq, h.inner, offset, by rw [Sampling.elapse, hnow, Nat.add_assoc]; rfl, hlast⟩

/-- Nothing but what is behind the intervals may differ afterwards. -/
theorem Continues.setInner (h : s.Continues R t) {c d : σ} (hcd : R c d) :
    { s with inner := c }.Continues R { t with inner := d } :=
  ⟨h.interval_eq, h.dropped_eq, hcd, h.clock⟩

/-- A sample that is passed on sets both clocks back to the present. -/
theorem Continues.passOn (h : s.Continues R t) {c d : σ} (hcd : R c d) :
    { s with inner := c, last? := some s.now }.Continues R { t with inner := d, last? := some t.now } := by
  obtain ⟨offset, hnow, -⟩ := h.clock
  exact ⟨h.interval_eq, h.dropped_eq, hcd, offset, hnow, congrArg some hnow⟩

theorem respects [Collector σ] (h : Respects R) : Respects (Sampling.Continues R) where
  add {s t} hst sample := by
    obtain ⟨result, u, v, hu, hv, huv⟩ := h.add hst.inner sample
    show ∃ result s' t', Sampling.add sample s = (result, s') ∧ Sampling.add sample t = (result, t') ∧ _
    rw [Sampling.add, Sampling.add, hst.accepts_eq]
    simp only [hu, hv]
    split
    · cases result with
      | error e => exact ⟨_, _, _, rfl, rfl, hst.setInner huv⟩
      | ok _ => exact ⟨_, _, _, rfl, rfl, hst.passOn huv⟩
    · exact ⟨_, _, _, rfl, rfl, hst.interval_eq, congrArg (· + 1) hst.dropped_eq, hst.inner, hst.clock⟩
  setMetadata hst d := hst.setInner (h.setMetadata hst.inner d)
  resolve {s t} hst := by
    obtain ⟨result, u, v, hu, hv, huv⟩ := h.resolve hst.inner
    show ∃ result s' t', Sampling.resolve s = (result, s') ∧ Sampling.resolve t = (result, t') ∧ _
    rw [Sampling.resolve, Sampling.resolve]
    simp only [hu, hv]
    exact ⟨_, _, _, rfl, rfl, hst.setInner huv⟩
  reset hst := by
    obtain ⟨offset, hnow, -⟩ := hst.clock
    exact ⟨hst.interval_eq, rfl, h.reset hst.inner, offset, hnow, rfl⟩
  info hst := h.info hst.inner

end Sampling

/-- Two collectors behind queues differ in nothing but what is behind the queues, and that is related. -/
inductive Buffered.Continues {σ : Type} (R : σ → σ → Prop) (b : Buffered σ) : Buffered σ → Prop
  | mk (inner : σ) (h : R b.inner inner) : Continues R b { b with inner }

namespace Buffered

variable {σ : Type} {R : σ → σ → Prop} {b c : Buffered σ}

theorem Continues.inner (h : b.Continues R c) : R b.inner c.inner := by
  cases h
  assumption

theorem Continues.token_eq (h : b.Continues R c) : b.token = c.token := by
  cases h
  rfl

theorem Continues.isOpen_eq (h : b.Continues R c) : b.isOpen = c.isOpen := by
  cases h
  rfl

theorem Continues.queue_eq (h : b.Continues R c) : b.queue = c.queue := by
  cases h
  rfl

theorem Continues.capacity_eq (h : b.Continues R c) : b.capacity = c.capacity := by
  cases h
  rfl

theorem Continues.withPending_eq (h : b.Continues R c) (held : Info) : b.withPending held = c.withPending held := by
  cases h
  rfl

theorem Continues.setInner (h : b.Continues R c) {s t : σ} (hst : R s t) :
    { b with inner := s }.Continues R { c with inner := t } := by
  cases h
  exact .mk t hst

/-- What concerns nothing but the queues is done to both alike. -/
theorem Continues.modify (h : b.Continues R c) (f : Buffered σ → Buffered σ)
    (hf : ∀ b inner, f { b with inner } = { f b with inner }) : (f b).Continues R (f c) := by
  obtain ⟨inner, hinner⟩ := h
  have hsame : f b = { f b with inner := b.inner } := hf b b.inner
  rw [hf b inner, hsame]
  exact .mk inner hinner

variable [Collector σ]

theorem Continues.applyMessage (h : Respects R) (hbc : b.Continues R c) (message : Message) :
    (b.applyMessage message).Continues R (c.applyMessage message) := by
  obtain ⟨inner, hinner⟩ := hbc
  cases message with
  | flush => exact .mk inner hinner
  | sample d =>
    obtain ⟨result, u, v, hu, hv, huv⟩ := h.add hinner d
    simp only [Buffered.applyMessage, hu, hv]
    cases result with
    | error e => exact .mk v huv
    | ok _ => exact .mk v huv

theorem Continues.settle (h : Respects R) (hbc : b.Continues R c) : b.settle.Continues R c.settle := by
  have hall : ∀ (messages : List Message) {b c : Buffered σ}, b.Continues R c →
      (messages.foldl Buffered.applyMessage b).Continues R (messages.foldl Buffered.applyMessage c) := by
    intro messages
    induction messages with
    | nil => exact id
    | cons message messages ih => exact fun hbc => ih (hbc.applyMessage h message)
  rw [Buffered.settle, Buffered.settle, hbc.queue_eq]
  exact hall c.queue (hbc.modify (fun b => { b with queue := [] }) fun _ _ => rfl)

theorem Continues.sync (h : Respects R) (hbc : b.Continues R c) : b.sync.Continues R c.sync := by
  rw [Buffered.sync, Buffered.sync, hbc.token_eq, hbc.isOpen_eq]
  split
  · exact (hbc.settle h).modify (fun b => { b with isJoined := true }) fun _ _ => rfl
  · split
    · exact (hbc.modify (push .flush) fun _ _ => rfl).settle h
    · exact hbc

theorem Continues.resolveSettled (h : Respects R) (hbc : b.Continues R c) :
    ∃ result b' c', b.resolveSettled = (result, b') ∧ c.resolveSettled = (result, c') ∧ b'.Continues R c' := by
  obtain ⟨inner, hinner⟩ := hbc
  obtain ⟨result, u, v, hu, hv, huv⟩ := h.resolve hinner
  rw [Buffered.resolveSettled, Buffered.resolveSettled]
  simp only [hu, hv]
  split
  · exact ⟨_, _, _, rfl, rfl, .mk v huv⟩
  · exact ⟨_, _, _, rfl, rfl, .mk inner hinner⟩

theorem Continues.resetSettled (h : Respects R) (hbc : b.Continues R c) :
    b.resetSettled.Continues R c.resetSettled := by
  obtain ⟨inner, hinner⟩ := hbc
  exact .mk _ (h.reset hinner)

theorem Continues.info_eq (h : Respects R) (hbc : b.Continues R c) : b.info = c.info := by
  rw [Buffered.info, Buffered.info, hbc.withPending_eq, h.info hbc.inner]

theorem respects (h : Respects R) : Respects (Buffered.Continues R) where
  add {b c} hbc sample := by
    show ∃ result b' c', Buffered.add sample b = (result, b') ∧ Buffered.add sample c = (result, c') ∧ _
    rw [Buffered.add, Buffered.add, hbc.token_eq, hbc.isOpen_eq]
    split
    · exact ⟨_, _, _, rfl, rfl, hbc⟩
    · split
      · exact ⟨_, _, _, rfl, rfl, (hbc.modify (fun b => b.count.push (.sample sample)) fun _ _ => rfl).settle h⟩
      · exact ⟨_, _, _, rfl, rfl, hbc⟩
  setMetadata hbc d := hbc.setInner (h.setMetadata hbc.inner d)
  resolve hbc := (hbc.sync h).resolveSettled h
  reset hbc := (hbc.sync h).resetSettled h
  info hbc := hbc.info_eq h

end Buffered

/-! ## Stacks -/

namespace Plan

variable {earlier : Bytes} {written : Nat}

/-- Two stacks of one design hold the same, and the sink of the first continues that of the second if they have one. -/
def Continues (earlier : Bytes) (written : Nat) : (p : Plan) → p.State → p.State → Prop
  | .streaming _ _, (s : Streaming), (t : Streaming) => s.Continues earlier written t
  | .adaptiveStreaming _ _, (s : AdaptiveStreaming), (t : AdaptiveStreaming) => s.Continues earlier written t
  | .sampling _ inner, (s : Sampling inner.State), (t : Sampling inner.State) =>
    s.Continues (inner.Continues earlier written) t
  | .buffered _ inner, (b : Buffered inner.State), (c : Buffered inner.State) =>
    b.Continues (inner.Continues earlier written) c
  | .window _ _, s, t | .batch _ _, s, t | .adaptive _ _, s, t => s = t

theorem respects (earlier : Bytes) (written : Nat) : (p : Plan) → Respects (p.Continues earlier written)
  | .window _ _ | .batch _ _ | .adaptive _ _ => Respects.eq
  | .streaming _ _ => Streaming.respects earlier written
  | .adaptiveStreaming _ _ => AdaptiveStreaming.respects earlier written
  | .sampling _ inner => Sampling.respects (inner.respects earlier written)
  | .buffered _ inner => Buffered.respects (inner.respects earlier written)

/-- Time goes by for both alike. -/
theorem Continues.elapse (millis : Nat) : ∀ {p : Plan} {s t : p.State}, p.Continues earlier written s t →
    p.Continues earlier written (p.elapse millis s) (p.elapse millis t)
  | .window _ _, _, _, h | .batch _ _, _, _, h | .adaptive _ _, _, _, h => congrArg _ h
  | .streaming _ _, _, _, h | .adaptiveStreaming _ _, _, _, h => h
  | .sampling _ _, _, _, h => (Sampling.Continues.elapse h millis).setInner (Continues.elapse millis h.inner)
  | .buffered _ _, _, _, h => Buffered.Continues.setInner h (Continues.elapse millis h.inner)

/-- The sink has taken what the other has, after what it had taken earlier. -/
theorem Continues.contents_eq : ∀ {p : Plan} {s t : p.State}, p.Continues earlier written s t →
    (p.sink? s).map Sink.contents = ((p.sink? t).map Sink.contents).map (earlier ++ ·)
  | .window _ _, _, _, _ | .batch _ _, _, _, _ | .adaptive _ _, _, _, _ => rfl
  | .streaming _ _, _, _, h => congrArg some h.sink.contents_eq
  | .adaptiveStreaming _ _, _, _, h => congrArg some h.inner.sink.contents_eq
  | .sampling _ inner, _, _, h => Continues.contents_eq (p := inner) h.inner
  | .buffered _ inner, _, _, h => Continues.contents_eq (p := inner) h.inner

/-- Chunks that are written are counted. -/
theorem counters_ne_nil : ∀ {p : Plan} {s : p.State}, (p.sink? s).isSome = true → p.counters s ≠ []
  | .streaming _ _, _, _ | .adaptiveStreaming _ _, _, _ => List.cons_ne_nil _ _
  | .sampling _ _, _, _ => List.cons_ne_nil _ _
  | .buffered _ inner, _, h => counters_ne_nil (p := inner) h

/-- What is counted, if so many chunks have been written earlier. Only with a sink chunks are written, and their number
comes last. -/
def countersAfter (written : Nat) (hasSink : Bool) (counters : List Nat) : List Nat :=
  if hasSink then counters.modifyLast (written + ·) else counters

theorem countersAfter_cons {hasSink : Bool} {counters : List Nat} (h : hasSink = true → counters ≠ []) (n : Nat) :
    countersAfter written hasSink (n :: counters) = n :: countersAfter written hasSink counters := by
  cases hasSink with
  | false => rfl
  | true => exact List.modifyLast_append_of_right_ne_nil _ [n] counters (h rfl)

@[simp] theorem countersAfter_zero (hasSink : Bool) (counters : List Nat) :
    countersAfter 0 hasSink counters = counters := by
  cases hasSink with
  | false => rfl
  | true =>
    cases counters using List.reverseRecOn with
    | nil => rfl
    | append_singleton init n => simp [countersAfter, List.modifyLast_concat]

/-- The chunks that have been written earlier are counted, too. -/
theorem Continues.counters_eq : ∀ {p : Plan} {s t : p.State}, p.Continues earlier written s t →
    p.counters s = countersAfter written (p.sink? t).isSome (p.counters t)
  | .window _ _, _, _, h | .batch _ _, _, _, h | .adaptive _ _, _, _, h => congrArg _ h
  | .streaming _ _, _, _, h => congrArg (fun n => [n]) h.chunksWritten_eq
  | .adaptiveStreaming _ _, _, _, h => congrArg (fun n => [n]) h.inner.chunksWritten_eq
  | .sampling _ inner, _, t, h =>
    have hinner := Continues.counters_eq (p := inner) h.inner
    have hcons := congrArg₂ List.cons (Sampling.Continues.dropped_eq h) hinner
    hcons.trans (countersAfter_cons counters_ne_nil (Sampling.dropped t)).symm
  | .buffered _ inner, _, _, h => Continues.counters_eq (p := inner) h.inner

end Plan

namespace Stack

/-- What is seen if the sink has taken something earlier, and that many chunks were written with it. -/
def View.after (earlier : Bytes) (written : Nat) (v : View) : View :=
  ⟨v.info, v.contents?.map (earlier ++ ·), Plan.countersAfter written v.contents?.isSome v.counters⟩

@[simp] theorem View.after_nothing (v : View) : v.after [] 0 = v := by
  simp [View.after]

/-- Two stacks of one design hold the same, and the sink of the first continues that of the second if there is one. -/
inductive Continues (earlier : Bytes) (written : Nat) : Stack → Stack → Prop
  | mk {p : Plan} {s t : p.State} (h : p.Continues earlier written s t) : Continues earlier written ⟨p, s⟩ ⟨p, t⟩

theorem respects (earlier : Bytes) (written : Nat) : Respects (Continues earlier written) where
  add h sample := by
    obtain @⟨p, s, t, hst⟩ := h
    obtain ⟨result, s', t', hs, ht, hst'⟩ := (p.respects earlier written).add hst sample
    exact ⟨result, ⟨p, s'⟩, ⟨p, t'⟩, by simp only [Collector.add, hs], by simp only [Collector.add, ht], .mk hst'⟩
  setMetadata h d := by
    obtain @⟨p, s, t, hst⟩ := h
    exact .mk ((p.respects earlier written).setMetadata hst d)
  resolve h := by
    obtain @⟨p, s, t, hst⟩ := h
    obtain ⟨result, s', t', hs, ht, hst'⟩ := (p.respects earlier written).resolve hst
    exact ⟨result, ⟨p, s'⟩, ⟨p, t'⟩, by simp only [Collector.resolve, hs], by simp only [Collector.resolve, ht],
      .mk hst'⟩
  reset h := by
    obtain @⟨p, s, t, hst⟩ := h
    exact .mk ((p.respects earlier written).reset hst)
  info h := by
    obtain @⟨p, s, t, hst⟩ := h
    exact (p.respects earlier written).info hst

namespace Continues

variable {earlier : Bytes} {written : Nat} {c d : Stack}

theorem flush (h : c.Continues earlier written d) :
    ∃ result c' d', c.flush = (result, c') ∧ d.flush = (result, d') ∧ c'.Continues earlier written d' := by
  obtain @⟨p, s, t, hst⟩ := h
  cases p with
  | streaming maxSamples z =>
    obtain ⟨result, s', t', hs, ht, hst'⟩ := Streaming.Continues.flush hst
    exact ⟨result, ⟨.streaming maxSamples z, s'⟩, ⟨.streaming maxSamples z, t'⟩, by simp only [Stack.flush, hs],
      by simp only [Stack.flush, ht], .mk hst'⟩
  | adaptiveStreaming maxSamples z =>
    obtain ⟨result, s', t', hs, ht, hst'⟩ := AdaptiveStreaming.Continues.flush hst
    exact ⟨result, ⟨.adaptiveStreaming maxSamples z, s'⟩, ⟨.adaptiveStreaming maxSamples z, t'⟩,
      by simp only [Stack.flush, hs], by simp only [Stack.flush, ht], .mk hst'⟩
  | window | batch | adaptive | sampling | buffered => exact ⟨_, _, _, rfl, rfl, .mk hst⟩

/-- An interval is outermost in both or in neither, and one still continues the other without it. -/
theorem unwrap (h : c.Continues earlier written d) :
    c.inner?.isSome = d.inner?.isSome ∧ (c.inner?.getD c).Continues earlier written (d.inner?.getD d) := by
  obtain @⟨p, s, t, hst⟩ := h
  cases p with
  | sampling interval inner => exact ⟨rfl, .mk (Sampling.Continues.inner hst)⟩
  | window | batch | adaptive | streaming | adaptiveStreaming | buffered => exact ⟨rfl, .mk hst⟩

/-- Nothing can be seen of the first stack but what can be seen of the second, after what it has written earlier. -/
theorem view_eq (h : c.Continues earlier written d) : c.view = d.view.after earlier written := by
  obtain @⟨p, s, t, hst⟩ := h
  have hinfo : Collector.info s = Collector.info t := (p.respects earlier written).info hst
  show View.mk (Collector.info s) ((p.sink? s).map Sink.contents) (p.counters s) =
    View.mk (Collector.info t) (((p.sink? t).map Sink.contents).map (earlier ++ ·))
      (Plan.countersAfter written ((p.sink? t).map Sink.contents).isSome (p.counters t))
  rw [hinfo, hst.contents_eq, hst.counters_eq, Option.isSome_map]

/-- Whatever both stacks are asked, they answer alike, and one continues the other afterwards. -/
theorem serve (h : c.Continues earlier written d) (r : Request) :
    ∃ answer c' d', c.serve r = (answer, c') ∧ d.serve r = (answer, d') ∧ c'.Continues earlier written d' := by
  cases r with
  | common r =>
    obtain ⟨answer, c', d', hc, hd, hcd⟩ := (respects earlier written).serve h r
    simp only [Stack.serve, hc, hd]
    exact ⟨_, _, _, rfl, rfl, hcd⟩
  | addJson j =>
    obtain ⟨result, c', d', hc, hd, hcd⟩ := (respects earlier written).addJson h j
    simp only [Stack.serve, hc, hd]
    exact ⟨_, _, _, rfl, rfl, hcd⟩
  | flush =>
    obtain ⟨result, c', d', hc, hd, hcd⟩ := h.flush
    simp only [Stack.serve, hc, hd]
    exact ⟨_, _, _, rfl, rfl, hcd⟩
  | flushInto out =>
    obtain ⟨result, c', d', taken, taken', hc, hd, hcd, htaken⟩ :=
      (respects earlier written).flushInto h (Sink.Continues.refl out)
    simp only [Stack.serve, hc, hd, htaken.contents_eq, List.nil_append]
    exact ⟨_, _, _, rfl, rfl, hcd⟩
  | elapse millis =>
    obtain @⟨p, s, t, hst⟩ := h
    exact ⟨_, _, _, rfl, rfl, .mk (hst.elapse millis)⟩
  | unwrap =>
    simp only [Stack.serve, h.unwrap.1]
    exact ⟨_, _, _, rfl, rfl, h.unwrap.2⟩

/-- Nothing that both stacks are asked tells them apart, but for what the first has written earlier. -/
theorem record_eq (h : c.Continues earlier written d) (later : List Request) :
    c.record later = (d.record later).map fun (answer, view) => (answer, view.after earlier written) := by
  induction later generalizing c d with
  | nil => rfl
  | cons r later ih =>
    obtain ⟨answer, c', d', hc, hd, hcd⟩ := h.serve r
    rw [record, record, List.map_cons, hc, hd, hcd.view_eq, ih hcd]

end Continues

theorem record_after_nothing (c : Stack) (later : List Request) :
    ((c.record later).map fun (answer, view) => (answer, view.after [] 0)) = c.record later := by
  simp

end Stack

end Telemetry

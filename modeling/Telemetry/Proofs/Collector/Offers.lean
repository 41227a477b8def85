import Telemetry.Collector.Config
import Telemetry.Proofs.Collector.Built
import Telemetry.Proofs.Collector.Chunking

/-!
# Samples offered one after the other

Samples are offered to a collector one after the other, each after some time, and the collector takes a sample or refuses
it (`Collector.afterOffers`, `Collector.refusals`). Behind a queue nothing is refused when it is offered: the refusals of
the wrapped collector are kept, and told when the samples are asked for (`Buffered.resolve_afterOffers`). So what a
configured stack makes of samples is told by what its chunks make of them, with the interval around them if there is one
(`Config.resolve_afterOffers`).

The chunks of a configuration hold samples in windows, and none of these is empty once a sample has been taken. What can
still be wrong when they are asked for is that a length does not fit its place (`Plan.Holding.isOversize`).
-/

namespace Telemetry

/-! ## Offers and refusals -/

/-- A sample that is offered when some time has gone by, in milliseconds. -/
structure Offer where
  millis : Nat
  sample : Document

namespace Collector

variable {σ : Type} [Collector σ] [Clocked σ]

/-- What comes of an offer, and the collector after it. -/
def offer (o : Offer) (c : σ) : Except Error Unit × σ :=
  add o.sample (Clocked.elapse o.millis c)

/-- The collector after offers, whether it took the samples or not. -/
def afterOffers (c : σ) : List Offer → σ
  | [] => c
  | o :: offers => afterOffers (offer o c).2 offers

/-- What is wrong with the samples that the collector refuses, in order. -/
def refusals (c : σ) : List Offer → List Error
  | [] => []
  | o :: offers =>
    match offer o c with
    | (.ok (), c) => refusals c offers
    | (.error e, c) => e :: refusals c offers

theorem refusals_cons_of_ok {o : Offer} {c c' : σ} (h : offer o c = (.ok (), c')) (offers : List Offer) :
    refusals c (o :: offers) = refusals c' offers := by
  rw [refusals, h]

theorem refusals_cons_of_error {o : Offer} {c c' : σ} {e : Error} (h : offer o c = (.error e, c'))
    (offers : List Offer) : refusals c (o :: offers) = e :: refusals c' offers := by
  rw [refusals, h]

theorem afterOffers_cons_of_eq {o : Offer} {c c' : σ} {result : Except Error Unit} (h : offer o c = (result, c'))
    (offers : List Offer) : afterOffers c (o :: offers) = afterOffers c' offers := by
  rw [afterOffers, h]

end Collector

open Collector

/-! ## Stacks -/

namespace Stack

variable (p : Plan) (s : p.State)

/-- A stack does what its collectors do. -/
theorem afterOffers_eq (offers : List Offer) : afterOffers (⟨p, s⟩ : Stack) offers = ⟨p, afterOffers s offers⟩ := by
  induction offers generalizing s with
  | nil => rfl
  | cons o offers ih => exact ih _

theorem refusals_eq (offers : List Offer) : refusals (⟨p, s⟩ : Stack) offers = refusals s offers := by
  induction offers generalizing s with
  | nil => rfl
  | cons o offers ih =>
    have hoffer : offer o (⟨p, s⟩ : Stack) = ((offer o s).1, ⟨p, (offer o s).2⟩) := rfl
    cases hresult : offer o s with
    | mk result s' =>
      rw [hresult] at hoffer
      cases result with
      | ok _ => rw [refusals_cons_of_ok hresult, refusals_cons_of_ok hoffer, ih]
      | error e => rw [refusals_cons_of_error hresult, refusals_cons_of_error hoffer, ih]

end Stack

/-! ## Queues -/

namespace Buffered

variable {σ : Type} [Collector σ] [Clocked σ] {capacity : Nat} {b : Buffered σ}

instance : Clocked (Buffered σ) := ⟨fun millis b => { b with inner := Clocked.elapse millis b.inner }⟩

/-- The worker brings a sample to the wrapped collector, and keeps what is wrong with it. -/
theorem AtRest.offer (h : b.AtRest capacity) (o : Offer) :
    (offer o b).1 = .ok () ∧ (offer o b).2.AtRest capacity ∧ (offer o b).2.inner = (Collector.offer o b.inner).2 ∧
      (offer o b).2.errors = b.errors ++ refusals b.inner [o] := by
  have hrest : (Clocked.elapse o.millis b : Buffered σ).AtRest capacity := h.setInner _
  have hadd := hrest.add_eq o.sample
  obtain ⟨hafter, hinner⟩ := hrest.add o.sample
  refine ⟨congrArg Prod.fst hadd, hafter, hinner, ?_⟩
  show (Collector.add o.sample (Clocked.elapse o.millis b : Buffered σ)).2.errors = _
  rw [hadd]
  cases hresult : Collector.offer o b.inner with
  | mk result c =>
    have hresult' : Collector.add o.sample (Clocked.elapse o.millis b : Buffered σ).inner = (result, c) := hresult
    cases result with
    | ok _ =>
      rw [refusals_cons_of_ok hresult, refusals, List.append_nil, count, applyMessage]
      simp only [hresult']
      rfl
    | error e =>
      rw [refusals_cons_of_error hresult, refusals, count, applyMessage]
      simp only [hresult']
      rfl

/-- Nothing is refused when it is offered; what the wrapped collector refuses is kept. -/
theorem AtRest.offers (h : b.AtRest capacity) (offers : List Offer) :
    refusals b offers = [] ∧ (afterOffers b offers).AtRest capacity ∧
      (afterOffers b offers).inner = afterOffers b.inner offers ∧
      (afterOffers b offers).errors = b.errors ++ refusals b.inner offers := by
  induction offers generalizing b with
  | nil => exact ⟨rfl, h, rfl, (List.append_nil _).symm⟩
  | cons o offers ih =>
    obtain ⟨hok, hrest, hinner, herrors⟩ := h.offer o
    obtain ⟨hnone, hlast, hinners, hall⟩ := ih hrest
    have hoffer : Collector.offer o b = (.ok (), (Collector.offer o b).2) := Prod.ext hok rfl
    refine ⟨(refusals_cons_of_ok hoffer offers).trans hnone, hlast, ?_, ?_⟩
    · rw [afterOffers, hinners, hinner, afterOffers]
    · rw [afterOffers, hall, herrors, hinner, List.append_assoc]
      congr 1
      cases hresult : Collector.offer o b.inner with
      | mk result c =>
        cases result with
        | ok _ => rw [refusals_cons_of_ok hresult, refusals_cons_of_ok hresult, refusals, List.nil_append]
        | error e =>
          rw [refusals_cons_of_error hresult, refusals_cons_of_error hresult, refusals, List.singleton_append]

/-- After offers the wrapped collector gives what it holds, unless it has refused a sample. -/
theorem AtRest.resolve_afterOffers (h : b.AtRest capacity) (herrors : b.errors = []) (offers : List Offer) :
    (resolve (afterOffers b offers)).1 =
      if refusals b.inner offers = [] then (Collector.resolve (afterOffers b.inner offers)).1
      else .error (.background (.rejected ((refusals b.inner offers).map Error.message))) := by
  obtain ⟨-, hrest, hinner, hall⟩ := h.offers offers
  rw [herrors, List.nil_append] at hall
  rw [resolve, hrest.sync_eq, resolveSettled, hall, hinner]
  by_cases hnone : refusals b.inner offers = []
  · rw [if_pos hnone, if_pos (by simp [hnone])]
  · rw [if_neg hnone, if_neg (by simp [hnone])]

end Buffered

/-! ## Configured stacks -/

namespace Config

/-- The configuration without a queue. -/
def unbuffered (c : Config) : Config :=
  { c with queue? := none }

/-- The state of the stack that a configuration starts with. -/
def startState (zlib : Compressor) (c : Config) (metadata? : Option Document) : (c.plan zlib).State :=
  match metadata? with
  | none => (c.plan zlib).start .empty .fresh
  | some d => setMetadata d ((c.plan zlib).start .empty .fresh)

variable (zlib : Compressor) (c : Config) (metadata? : Option Document) (offers : List Offer)

theorem started_eq : c.started zlib metadata? = ⟨c.plan zlib, c.startState zlib metadata?⟩ := by
  cases metadata? <;> rfl

/-- A queue is put around what the configuration asks for without it. -/
theorem started_of_queue {capacity : Nat} (h : c.queue? = some capacity) :
    ∃ b : (Plan.buffered capacity (c.unbuffered.plan zlib)).State, Buffered.AtRest capacity b ∧ Buffered.errors b = [] ∧
      Buffered.inner b = c.unbuffered.startState zlib metadata? ∧
      c.started zlib metadata? = ⟨.buffered capacity (c.unbuffered.plan zlib), b⟩ := by
  obtain ⟨maxSamples, followsSchema, interval?, queue?, level⟩ := c
  obtain rfl : queue? = some capacity := h
  have hrest := Buffered.atRest_around capacity
    (((unbuffered ⟨maxSamples, followsSchema, interval?, some capacity, level⟩).plan zlib).start .empty .fresh)
  cases metadata? with
  | none => exact ⟨_, hrest, rfl, rfl, rfl⟩
  | some d => exact ⟨_, hrest.setInner _, rfl, rfl, rfl⟩

theorem unbuffered_of_queue_eq_none (h : c.queue? = none) : c.unbuffered = c := by
  rw [unbuffered, ← h]

/-- With a queue, no sample is refused when it is offered. -/
theorem refusals_started : refusals (c.started zlib metadata?) offers =
    if c.queue?.isSome then [] else refusals (c.unbuffered.started zlib metadata?) offers := by
  cases hqueue : c.queue? with
  | none => rw [unbuffered_of_queue_eq_none c hqueue]; rfl
  | some capacity =>
    obtain ⟨b, hrest, -, -, hstarted⟩ := started_of_queue zlib c metadata? hqueue
    rw [hstarted]
    exact (Stack.refusals_eq _ b offers).trans (hrest.offers offers).1

/-- With a queue, the refusals are told when the samples are asked for. -/
theorem resolve_afterOffers : (resolve (afterOffers (c.started zlib metadata?) offers)).1 =
    if c.queue?.isSome ∧ refusals (c.unbuffered.started zlib metadata?) offers ≠ [] then
      .error (.background (.rejected ((refusals (c.unbuffered.started zlib metadata?) offers).map Error.message)))
    else (resolve (afterOffers (c.unbuffered.started zlib metadata?) offers)).1 := by
  cases hqueue : c.queue? with
  | none => rw [unbuffered_of_queue_eq_none c hqueue, if_neg (by simp)]
  | some capacity =>
    obtain ⟨b, hrest, herrors, hinner, hstarted⟩ := started_of_queue zlib c metadata? hqueue
    have hresolve := hrest.resolve_afterOffers herrors offers
    rw [hinner] at hresolve
    have houter := congrArg (fun s : Stack => (resolve s).1) (Stack.afterOffers_eq _ b offers)
    rw [hstarted, started_eq, Stack.afterOffers_eq _ (c.unbuffered.startState zlib metadata?), Stack.refusals_eq]
    refine houter.trans (Eq.trans hresolve ?_)
    by_cases hnone : refusals (c.unbuffered.startState zlib metadata?) offers = []
    · rw [if_pos hnone, if_neg (by simp [hnone])]
      rfl
    · rw [if_neg hnone, if_pos ⟨rfl, hnone⟩]

end Config

/-! ## What is held -/

/-- A length does not fit the place that it is written in. -/
def Error.isOversize : Error → Bool
  | .serialization (.documentTooLarge _) => true
  | .compression (.payloadTooLarge _) => true
  | _ => false

theorem Document.isOversize_of_encode {d : Document} {fault : EncodingFault} (h : Document.encode d = .error fault) :
    (Error.serialization fault).isOversize = true := by
  rw [Document.encode] at h
  split at h
  · simp at h
  · exact Except.error.inj h ▸ rfl

theorem Payload.isOversize_of_compress {z : Compression} {payload : Bytes} {fault : StreamFault}
    (h : compress z payload = .error fault) : (Error.compression fault).isOversize = true := by
  rw [compress] at h
  split at h
  · simp at h
  · exact Except.error.inj h ▸ rfl

/-- What keeps a window with samples from being written is a length. -/
theorem Window.Fills.isOversize {z : Compression} {w : Window} {s : Segment} (h : w.Fills z s) (hne : s.samples ≠ [])
    {e : Error} (hresolve : w.resolve = .error e) : e.isOversize = true := by
  obtain ⟨first, rest, -, hcarries⟩ := h.exists_carries hne
  rw [resolve] at hresolve
  split at hresolve
  · next e' hbody =>
    obtain rfl := Except.error.inj hresolve
    rw [body] at hbody
    split at hbody
    · next e'' hpayload =>
      obtain rfl := Except.error.inj hbody
      rw [payload, hcarries.reference_eq] at hpayload
      dsimp only at hpayload
      split at hpayload
      · next hencode =>
        obtain rfl := Except.error.inj hpayload
        exact Document.isOversize_of_encode hencode
      · simp at hpayload
    · split at hbody
      · next hcompress =>
        obtain rfl := Except.error.inj hbody
        exact Payload.isOversize_of_compress hcompress
      · simp at hbody
  · split at hresolve
    · next e' hfront =>
      obtain rfl := Except.error.inj hresolve
      rw [metadataBytes] at hfront
      split at hfront
      · simp at hfront
      · rw [Record.ofMetadata] at hfront
        split at hfront
        · next hmetadata =>
          split at hmetadata
          · simp at hmetadata
          · next hencode =>
            obtain rfl := Except.error.inj hfront
            obtain rfl := Except.error.inj hmetadata
            exact Document.isOversize_of_encode hencode
        · simp at hfront
    · simp at hresolve

/-- A collector holds samples, and a document in front of them: it takes a sample behind those it holds or refuses it,
but not if it is like them; and what keeps it from giving them back is a length. -/
structure Collector.Filling {σ : Type} [Collector σ] (P : σ → Segment → Prop) : Prop where
  taken : ∀ {c c' s d}, P c s → add d c = (.ok (), c') → P c' ⟨s.metadata?, s.samples ++ [d]⟩
  refused : ∀ {c c' s d e}, P c s → add d c = (.error e, c') → c' = c
  exists_add : ∀ {c s d}, P c s → (∀ e ∈ s.samples, Document.types d = Document.types e) →
    ∃ c', add d c = (.ok (), c')
  metadataSet : ∀ {c s} d, P c s → P (setMetadata d c) ⟨some d, s.samples⟩
  isOversize : ∀ {c s e}, P c s → s.samples ≠ [] → (resolve c).1 = .error e → e.isOversize = true

/-- After a sample has come some sample is held: it has been taken, or there was one before. -/
theorem Collector.Filling.exists_holding {σ : Type} [Collector σ] {P : σ → Segment → Prop} (h : Filling P) {c : σ}
    {s : Segment} (hc : P c s) (d : Document) : ∃ s' : Segment, s'.samples ≠ [] ∧ P (add d c).2 s' := by
  cases hadd : add d c with
  | mk result c' =>
    cases result with
    | ok _ => exact ⟨_, by simp, h.taken hc hadd⟩
    | error e =>
      refine ⟨s, fun hnil => ?_, h.refused hc hadd ▸ hc⟩
      obtain ⟨c'', hok⟩ := h.exists_add hc (d := d) (by simp [hnil])
      simp [hok] at hadd

/-- What keeps windows with samples from being written is a length. -/
theorem Window.isOversize_of_mem {z : Compression} {windows : List Window} {segments : List Segment}
    (h : List.Forall₂ (Fills z) windows segments) (hne : ∀ s ∈ segments, s.samples ≠ []) {w : Window} {e : Error}
    (hw : w ∈ windows) (hresolve : w.resolve = .error e) : e.isOversize = true := by
  induction h with
  | nil => simp at hw
  | @cons w' s windows segments hfills hmore ih =>
    rcases List.mem_cons.mp hw with rfl | hw
    · exact hfills.isOversize (hne s List.mem_cons_self) hresolve
    · exact ih (fun s' hs' => hne s' (List.mem_cons_of_mem s hs')) hw

theorem Batch.exists_of_resolve_error {b : Batch} {e : Error} (h : b.resolve = .error e) :
    ∃ w ∈ b.windows, w.resolve = .error e :=
  exists_of_mapM_eq_error (eq_error_of_map h)

theorem Adaptive.exists_of_resolve_error {a : Adaptive} {e : Error} (h : a.resolve = .error e) :
    ∃ w ∈ a.batches.flatMap Batch.windows, w.resolve = .error e := by
  obtain ⟨b, hb, hresolve⟩ := exists_of_mapM_eq_error (eq_error_of_map h)
  obtain ⟨w, hw, hfault⟩ := Batch.exists_of_resolve_error hresolve
  exact ⟨w, List.mem_flatMap.mpr ⟨b, hb, hw⟩, hfault⟩

theorem Batch.filling (k : Nat) (z : Compression) : Filling (Batch.Fills k z) where
  taken h hadd := h.added hadd
  refused _ hadd := Batch.eq_of_add_error hadd
  exists_add h htypes := h.exists_add_of_types htypes
  metadataSet d h := h.setMetadata d
  isOversize h hne hresolve := by
    obtain ⟨w, hw, hfault⟩ := Batch.exists_of_resolve_error hresolve
    exact Window.isOversize_of_mem (h.windows_fill hne) (fun s' hs' =>
      ne_nil_of_mem_inGroups (Segment.mem_of_mem_ofGroups hs')) hw hfault

theorem Adaptive.filling (k : Nat) (z : Compression) : Filling (Adaptive.Fills k z) where
  taken h hadd := h.added hadd
  refused _ hadd := Adaptive.eq_of_add_error hadd
  exists_add h htypes := h.exists_add_of_types htypes
  metadataSet d h := h.setMetadata d
  isOversize h hne hresolve := by
    obtain ⟨w, hw, hfault⟩ := Adaptive.exists_of_resolve_error hresolve
    exact Window.isOversize_of_mem (h.windows_fill hne) (fun s' hs' =>
      ne_nil_of_mem_inGroupsOfRuns (Segment.mem_of_mem_ofGroups hs')) hw hfault

namespace Plan

/-- The chunks of a design, with or without an interval around them, hold the samples of a segment. An interval has a
time to go by only when there are some. -/
def Holding : (p : Plan) → p.State → Segment → Prop
  | .batch maxSamples z, (b : Batch), s => b.Fills (max maxSamples 1) z s
  | .adaptive maxSamples z, (a : Adaptive), s => a.Fills (max maxSamples 1) z s
  | .sampling _ inner, (c : Sampling inner.State), s =>
    inner.Holding c.inner s ∧ (c.last?.isSome = true → s.samples ≠ [])
  | _, _, _ => False

namespace Holding

theorem elapse (millis : Nat) : ∀ {p : Plan} {c : p.State} {s : Segment}, p.Holding c s →
    p.Holding (p.elapse millis c) s
  | .batch _ _, _, _, h | .adaptive _ _, _, _, h => h
  | .sampling _ inner, _, _, h => ⟨Holding.elapse (p := inner) millis h.1, h.2⟩

/-- After an offer some sample is held: it has been taken, or there was one before. -/
theorem offer (o : Offer) : ∀ {p : Plan} {c : p.State} {s : Segment}, p.Holding c s →
    ∃ s' : Segment, s'.samples ≠ [] ∧ p.Holding (offer o c).2 s'
  | .batch _ _, c, s, h => (Batch.filling _ _).exists_holding h o.sample
  | .adaptive _ _, c, s, h => (Adaptive.filling _ _).exists_holding h o.sample
  | .sampling interval inner, (c : Sampling inner.State), s, ⟨hinner, hlast⟩ => by
    let t : Sampling inner.State := { c.elapse o.millis with inner := inner.elapse o.millis c.inner }
    show ∃ s' : Segment, _ ∧ Plan.Holding (.sampling interval inner) (Sampling.add o.sample t).2 s'
    by_cases haccepts : t.accepts = true
    · obtain ⟨s', hne, hs'⟩ := Holding.offer o hinner
      have hadd : Collector.add o.sample t.inner = Collector.offer o c.inner := rfl
      refine ⟨s', hne, ?_⟩
      rw [Sampling.add, if_pos haccepts, hadd]
      cases hresult : Collector.offer o c.inner with
      | mk result c' =>
        rw [hresult] at hs'
        cases result with
        | ok _ => exact ⟨hs', fun _ => hne⟩
        | error e => exact ⟨hs', fun _ => hne⟩
    · -- only after another sample is a sample dropped
      have hsome : c.last?.isSome = true := by
        cases hnone : c.last? with
        | some last => rfl
        | none => simp [t, Sampling.accepts, Sampling.elapse, hnone] at haccepts
      refine ⟨s, hlast hsome, ?_⟩
      rw [Sampling.add, if_neg haccepts]
      exact ⟨hinner.elapse o.millis, hlast⟩

theorem setMetadata (d : Document) : ∀ {p : Plan} {c : p.State} {s : Segment}, p.Holding c s →
    p.Holding (setMetadata d c) ⟨some d, s.samples⟩
  | .batch _ _, _, _, h => (Batch.filling _ _).metadataSet d h
  | .adaptive _ _, _, _, h => (Adaptive.filling _ _).metadataSet d h
  | .sampling _ inner, _, _, h => ⟨Holding.setMetadata d (p := inner) h.1, h.2⟩

/-- What keeps samples from being given back is a length. -/
theorem isOversize : ∀ {p : Plan} {c : p.State} {s : Segment}, p.Holding c s → s.samples ≠ [] → ∀ {e : Error},
    (resolve c).1 = .error e → e.isOversize = true
  | .batch _ _, _, _, h, hne, _, hresolve => (Batch.filling _ _).isOversize h hne hresolve
  | .adaptive _ _, _, _, h, hne, _, hresolve => (Adaptive.filling _ _).isOversize h hne hresolve
  | .sampling _ inner, (c : Sampling inner.State), _, h, hne, _, hresolve =>
    Holding.isOversize (p := inner) (c := c.inner) h.1 hne hresolve

theorem afterOffers {p : Plan} {c : p.State} {s : Segment} (h : p.Holding c s) {offers : List Offer}
    (hne : offers ≠ []) : ∃ s' : Segment, s'.samples ≠ [] ∧ p.Holding (afterOffers c offers) s' := by
  induction offers generalizing c s with
  | nil => exact absurd rfl hne
  | cons o offers ih =>
    obtain ⟨s', hsome, hs'⟩ := h.offer o
    cases offers with
    | nil => exact ⟨s', hsome, hs'⟩
    | cons o' offers => exact ih hs' (List.cons_ne_nil o' offers)

end Holding

end Plan

namespace Config

/-- A configuration without a queue starts with chunks that hold nothing but the document. -/
theorem holding_start {zlib : Compressor} {c : Config} (hqueue : c.queue? = none) (metadata? : Option Document) :
    (c.plan zlib).Holding (c.startState zlib metadata?) ⟨metadata?, []⟩ := by
  have hempty : (c.plan zlib).Holding ((c.plan zlib).start .empty .fresh) ⟨none, []⟩ := by
    obtain ⟨maxSamples, followsSchema, interval?, queue?, level⟩ := c
    obtain rfl : queue? = none := hqueue
    have hbatch := Batch.Fills.empty maxSamples ⟨zlib, level⟩
    have hadaptive := Adaptive.Fills.empty maxSamples ⟨zlib, level⟩
    cases interval? with
    | none =>
      cases followsSchema with
      | false => exact hbatch
      | true => exact hadaptive
    | some interval =>
      -- no sample has been passed on yet
      cases followsSchema with
      | false => exact ⟨hbatch, fun h => absurd h Bool.false_ne_true⟩
      | true => exact ⟨hadaptive, fun h => absurd h Bool.false_ne_true⟩
  cases metadata? with
  | none => exact hempty
  | some d => exact hempty.setMetadata d

/-- What keeps the chunks of a configuration from giving samples back is a length. -/
theorem isOversize_of_resolve {zlib : Compressor} {c : Config} {metadata? : Option Document} {offers : List Offer}
    (hne : offers ≠ []) {e : Error}
    (h : (resolve (afterOffers (c.unbuffered.started zlib metadata?) offers)).1 = .error e) : e.isOversize = true := by
  obtain ⟨s, hsome, hs⟩ := (holding_start (c := c.unbuffered) rfl metadata?).afterOffers hne
  rw [started_eq, Stack.afterOffers_eq] at h
  exact hs.isOversize hsome h

end Config

/-! ## Without an interval -/

/-- Samples that are all taken are held behind those before them, however much time goes by. -/
theorem Collector.Filling.of_refusals {σ : Type} [Collector σ] [Clocked σ] {P : σ → Segment → Prop} (h : Filling P)
    (helapse : ∀ millis (c : σ), Clocked.elapse millis c = c) {c : σ} {s : Segment} (hc : P c s) {offers : List Offer}
    (hnone : refusals c offers = []) :
    P (afterOffers c offers) ⟨s.metadata?, s.samples ++ offers.map Offer.sample⟩ := by
  induction offers generalizing c s with
  | nil =>
    rw [List.map_nil, List.append_nil]
    exact hc
  | cons o offers ih =>
    cases hoffer : offer o c with
    | mk result c' =>
      cases result with
      | error e => simp [refusals_cons_of_error hoffer] at hnone
      | ok _ =>
        rw [refusals_cons_of_ok hoffer] at hnone
        rw [offer, helapse] at hoffer
        have hmore := ih (h.taken hc hoffer) hnone
        rw [List.append_assoc, List.singleton_append] at hmore
        rw [afterOffers, offer, helapse, hoffer]
        exact hmore

/-- Segments can be written exactly if the windows that hold them resolve. -/
theorem Window.exists_resolve_iff {z : Compression} {windows : List Window} {segments : List Segment}
    (h : List.Forall₂ (Fills z) windows segments) (hne : ∀ s ∈ segments, s.samples ≠ []) :
    (∀ w ∈ windows, ∃ piece, w.resolve = .ok piece) ↔ ∀ s ∈ segments, s.Writable := by
  induction h with
  | nil => simp
  | @cons w s windows segments hfills hmore ih =>
    obtain ⟨hne, hmores⟩ := List.forall_mem_cons.mp hne
    rw [List.forall_mem_cons, List.forall_mem_cons, ih hmores]
    refine and_congr_left fun _ => ?_
    constructor
    · rintro ⟨piece, hpiece⟩
      exact hfills.writable_of_resolve hne hpiece
    · intro hw
      exact ⟨_, hfills.resolve_eq hne hw⟩

theorem Batch.Fills.exists_resolve_iff {k : Nat} {z : Compression} {b : Batch} {s : Segment} (h : b.Fills k z s)
    (hne : s.samples ≠ []) :
    (∃ bytes, b.resolve = .ok bytes) ↔
      ∀ s' ∈ Segment.ofGroups s.metadata? (inGroups k s.samples), s'.Writable := by
  constructor
  · rintro ⟨bytes, hresolve⟩
    exact (Window.exists_resolve_iff (h.windows_fill hne) fun s' hs' =>
      ne_nil_of_mem_inGroups (Segment.mem_of_mem_ofGroups hs')).mp (Batch.exists_resolve_of_mem hresolve)
  · intro hw
    exact ⟨_, h.resolve_eq hne hw⟩

theorem Adaptive.Fills.exists_resolve_iff {k : Nat} {z : Compression} {a : Adaptive} {s : Segment} (h : a.Fills k z s)
    (hne : s.samples ≠ []) :
    (∃ bytes, a.resolve = .ok bytes) ↔
      ∀ s' ∈ Segment.ofGroups s.metadata? (inGroupsOfRuns k s.samples), s'.Writable := by
  constructor
  · rintro ⟨bytes, hresolve⟩
    refine (Window.exists_resolve_iff (h.windows_fill hne) fun s' hs' =>
      ne_nil_of_mem_inGroupsOfRuns (Segment.mem_of_mem_ofGroups hs')).mp fun w hw => ?_
    obtain ⟨b, hb, hw⟩ := List.mem_flatMap.mp hw
    obtain ⟨piece, hpiece⟩ := Adaptive.exists_resolve_of_mem hresolve b hb
    exact Batch.exists_resolve_of_mem hpiece w hw
  · intro hw
    exact ⟨_, h.resolve_eq hne hw⟩

/-- Nothing stands around the chunks of a design. -/
def Plan.IsBare : Plan → Prop
  | .batch _ _ | .adaptive _ _ => True
  | _ => False

theorem Plan.filling : ∀ {p : Plan}, p.IsBare → Filling p.Holding
  | .batch _ _, _ => Batch.filling _ _
  | .adaptive _ _, _ => Adaptive.filling _ _

theorem Plan.elapse_eq : ∀ {p : Plan}, p.IsBare → ∀ (millis : Nat) (c : p.State), Clocked.elapse millis c = c
  | .batch _ _, _, _, _ | .adaptive _ _, _, _, _ => rfl

namespace Config

/-- How the chunks of a configuration cut samples. -/
def cut (c : Config) : List Document → List (List Document) :=
  if c.followsSchema then inGroupsOfRuns (max c.maxSamples 1) else inGroups (max c.maxSamples 1)

variable {zlib : Compressor} {c : Config} {metadata? : Option Document} {offers : List Offer}

theorem isBare (hinterval : c.interval? = none) : (c.unbuffered.plan zlib).IsBare := by
  obtain ⟨maxSamples, followsSchema, interval?, queue?, level⟩ := c
  obtain rfl : interval? = none := hinterval
  cases followsSchema <;> trivial

theorem holding_afterOffers (hinterval : c.interval? = none)
    (hnone : refusals (c.unbuffered.started zlib metadata?) offers = []) :
    (c.unbuffered.plan zlib).Holding (afterOffers (c.unbuffered.startState zlib metadata?) offers)
      ⟨metadata?, offers.map Offer.sample⟩ := by
  rw [started_eq, Stack.refusals_eq] at hnone
  have hbare : (c.unbuffered.plan zlib).IsBare := isBare hinterval
  exact (Plan.filling hbare).of_refusals (Plan.elapse_eq hbare) (holding_start rfl metadata?) hnone

/-- Samples that have all been taken are given back as the configuration cuts them. -/
theorem gives (hinterval : c.interval? = none) (hnone : refusals (c.unbuffered.started zlib metadata?) offers = []) :
    Gives (afterOffers (c.unbuffered.started zlib metadata?) offers) ⟨offers.map Offer.sample, metadata?⟩ ⟨zlib, c.level⟩
      c.cut := by
  have hholding := holding_afterOffers hinterval hnone
  rw [started_eq, Stack.afterOffers_eq]
  obtain ⟨maxSamples, followsSchema, interval?, queue?, level⟩ := c
  obtain rfl : interval? = none := hinterval
  cases followsSchema with
  | false =>
    have hgives := Batch.Fills.gives (l := ⟨offers.map Offer.sample, metadata?⟩) (Nat.le_max_right _ _) hholding
    exact ⟨hgives.nothing, hgives.info_eq, hgives.chunks⟩
  | true =>
    have hgives := Adaptive.Fills.gives (l := ⟨offers.map Offer.sample, metadata?⟩) hholding
    exact ⟨hgives.nothing, hgives.info_eq, hgives.chunks⟩

/-- Samples that have all been taken can be given back exactly if all lengths fit their places. -/
theorem exists_resolve_iff (hinterval : c.interval? = none)
    (hnone : refusals (c.unbuffered.started zlib metadata?) offers = []) (hne : offers ≠ []) :
    (∃ bytes, (resolve (afterOffers (c.unbuffered.started zlib metadata?) offers)).1 = .ok bytes) ↔
      ∀ s ∈ Segment.ofGroups metadata? (c.cut (offers.map Offer.sample)), s.Writable := by
  have hholding := holding_afterOffers hinterval hnone
  have hsamples : offers.map Offer.sample ≠ [] := List.map_eq_nil_iff.not.mpr hne
  rw [started_eq, Stack.afterOffers_eq]
  obtain ⟨maxSamples, followsSchema, interval?, queue?, level⟩ := c
  obtain rfl : interval? = none := hinterval
  cases followsSchema with
  | false => exact Batch.Fills.exists_resolve_iff hholding hsamples
  | true => exact Adaptive.Fills.exists_resolve_iff hholding hsamples

end Config

end Telemetry

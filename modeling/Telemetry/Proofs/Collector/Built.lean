import Telemetry.Proofs.Collector.Adaptive
import Telemetry.Proofs.Collector.Continues

/-!
# What a stack was built with

The design of a stack says how many samples go into a chunk, which compression level is used, how long an interval is
and how many messages wait in a queue. None of this changes, whatever the stack is asked: it shows in the windows that
are open, and in what the layers keep (`Plan.Built`, `Plan.keeps`).

A stack that begins again has nothing else left. So it continues one that is new, in front of a sink that goes on as its
own sink does (`Plan.Built.reset_continues`).
-/

namespace Telemetry

open Collector

/-! ## What no operation changes -/

/-- A statement about a collector that every operation keeps, whether a sample is taken or not. -/
structure Collector.Keeps {σ : Type} [Collector σ] (P : σ → Prop) : Prop where
  add : ∀ {c}, P c → ∀ sample, P (add sample c).2
  setMetadata : ∀ {c}, P c → ∀ document, P (setMetadata document c)
  resolve : ∀ {c}, P c → P (resolve c).2
  reset : ∀ {c}, P c → P (reset c)

namespace Collector.Keeps

variable {σ : Type} [Collector σ] {P : σ → Prop} {c : σ}

theorem serve (h : Keeps P) (hc : P c) (r : Request) : P (serve c r).2 := by
  cases r with
  | add sample => exact h.add hc sample
  | setMetadata document => exact h.setMetadata hc document
  | resolve => exact h.resolve hc
  | info => exact hc
  | reset => exact h.reset hc

theorem addJson (h : Keeps P) (hc : P c) (j : Json) : P (addJson j c).2 := by
  rw [Collector.addJson]
  split
  · exact h.add hc _
  · exact hc

theorem flushInto (h : Keeps P) (hc : P c) (sink : Sink) : P (flushInto c sink).2.1 := by
  have hresolved := h.resolve hc
  rw [Collector.flushInto]
  split
  · exact hc
  · cases hresolve : Collector.resolve c with
    | mk resolved c' =>
      rw [hresolve] at hresolved
      cases resolved with
      | error e => exact hresolved
      | ok bytes =>
        dsimp only
        split
        · exact hresolved
        · exact h.reset hresolved

end Collector.Keeps

/-! ## Windows, and groups of them -/

/-- What a window has taken makes no difference when it begins again. -/
theorem Window.reset_add (sample : Document) (w : Window) : (w.add sample).2.reset = w.reset := by
  obtain ⟨hdeltas, hcompression, -⟩ := frame_add sample w
  rw [reset, hdeltas, hcompression]
  rfl

theorem Window.keeps (start : Window) : Keeps fun w : Window => w.reset = start where
  add h sample := (reset_add sample _).trans h
  setMetadata h _ := h
  resolve h := h
  reset h := h

namespace Batch

theorem reset_roll (b : Batch) : b.roll.reset = b.reset := by
  rw [roll]
  split <;> rfl

theorem reset_add (sample : Document) (b : Batch) : (b.add sample).2.reset = b.reset :=
  b.reset_roll

theorem reset_setMetadata (document : Document) (b : Batch) : (b.setMetadata document).reset = b.reset := by
  rw [setMetadata]
  split <;> rfl

theorem keeps (start : Batch) : Keeps fun b : Batch => b.reset = start where
  add h sample := (reset_add sample _).trans h
  setMetadata h document := (reset_setMetadata document _).trans h
  resolve h := h
  reset h := h

end Batch

namespace Adaptive

theorem reset_turn (f : Fingerprint) (a : Adaptive) : (a.turn f).reset = a.reset := by
  rcases turn_cases f a with hturn | hturn <;> rw [hturn]
  rfl

theorem reset_add (sample : Document) (a : Adaptive) : (a.add sample).2.reset = a.reset := by
  refine Eq.trans ?_ (reset_turn sample.fingerprint a)
  rw [add]
  split <;> rfl

theorem reset_setMetadata (document : Document) (a : Adaptive) : (a.setMetadata document).reset = a.reset := by
  rw [setMetadata]
  split <;> rfl

theorem keeps (start : Adaptive) : Keeps fun a : Adaptive => a.reset = start where
  add h sample := (reset_add sample _).trans h
  setMetadata h document := (reset_setMetadata document _).trans h
  resolve h := h
  reset h := h

end Adaptive

/-! ## Windows in front of sinks -/

/-- An empty sink whose calls go as those of another will from now on. -/
def Sink.anew (s : Sink) : Sink :=
  .refusing (fun n => s.refusesWrite (s.writes + n)) fun n => s.refusesFlush (s.flushes + n)

theorem Sink.continues_anew (s : Sink) : s.Continues s.contents s.anew where
  refusesWrite_eq n := congrArg (fun m => s.refusesWrite (s.writes + m)) (Nat.zero_add n).symm
  refusesFlush_eq n := congrArg (fun m => s.refusesFlush (s.flushes + m)) (Nat.zero_add n).symm
  contents_eq := (List.append_nil _).symm

/-- A streaming collector was built for so many samples in a chunk and for a compression, and so was its window. -/
structure Streaming.BuiltWith (maxSamples : Nat) (z : Compression) (s : Streaming) : Prop where
  maxSamples_eq : s.maxSamples = max maxSamples 1
  reset_eq : s.current.reset = .empty (max maxSamples 1 - 1) z

namespace Streaming

variable {maxSamples : Nat} {z : Compression} {s s' : Streaming}

theorem builtWith_empty (maxSamples : Nat) (z : Compression) (sink : Sink) :
    (Streaming.empty maxSamples z sink).BuiltWith maxSamples z :=
  ⟨rfl, rfl⟩

namespace BuiltWith

theorem of_takes (h : s.BuiltWith maxSamples z) {sample : Document} {result : Except Error Unit}
    (htakes : s.Takes sample result s') : s'.BuiltWith maxSamples z := by
  cases htakes with
  | refused e sink hcontents => exact ⟨h.maxSamples_eq, h.reset_eq⟩
  | here w hadd =>
    have hreset := Window.reset_add sample s.current
    rw [hadd] at hreset
    exact ⟨h.maxSamples_eq, hreset.trans h.reset_eq⟩
  | behind bytes w hsamples hbytes hadd =>
    have hreset := Window.reset_add sample s.current.reset
    rw [hadd] at hreset
    exact ⟨h.maxSamples_eq, hreset.trans h.reset_eq⟩

theorem writeChunk (h : s.BuiltWith maxSamples z) : s.writeChunk.2.BuiltWith maxSamples z := by
  rcases s.writeChunk_cases with ⟨-, hwrite⟩ | ⟨-, bytes, -, -, hwrite⟩ | ⟨-, e, sink, hwrite, -⟩ <;> rw [hwrite]
  · exact h
  · exact ⟨h.maxSamples_eq, h.reset_eq⟩
  · exact ⟨h.maxSamples_eq, h.reset_eq⟩

theorem flush (h : s.BuiltWith maxSamples z) : s.flush.2.BuiltWith maxSamples z := by
  have hwritten := h.writeChunk
  rw [Streaming.flush]
  cases hwrite : s.writeChunk with
  | mk result t =>
    rw [hwrite] at hwritten
    cases result with
    | error e => exact hwritten
    | ok _ => exact ⟨hwritten.maxSamples_eq, hwritten.reset_eq⟩

/-- Begun again, the collector is as if it were new, in front of a sink that goes on alike. -/
theorem reset_continues (h : s.BuiltWith maxSamples z) :
    s.reset.Continues s.sink.contents s.chunksWritten (.empty maxSamples z s.sink.anew) :=
  ⟨s.sink.continues_anew, h.maxSamples_eq, h.reset_eq, rfl⟩

end BuiltWith

theorem keeps (maxSamples : Nat) (z : Compression) : Keeps (Streaming.BuiltWith maxSamples z) where
  add h sample := h.of_takes (takes _ sample)
  setMetadata h _ := ⟨h.maxSamples_eq, h.reset_eq⟩
  resolve h := h
  reset h := ⟨h.maxSamples_eq, h.reset_eq⟩

end Streaming

theorem AdaptiveStreaming.keeps (maxSamples : Nat) (z : Compression) :
    Keeps fun s : AdaptiveStreaming => s.inner.BuiltWith maxSamples z where
  add {s} h sample := by
    have htakes := s.takes sample
    show (s.add sample).2.inner.BuiltWith maxSamples z
    generalize (s.add sample).1 = result, (s.add sample).2 = s' at htakes
    cases htakes with
    | refused e sink hcontents => exact ⟨h.maxSamples_eq, h.reset_eq⟩
    | here w hadd hfor => exact h.of_takes (.here w hadd)
    | behind bytes w hsamples hbytes hadd => exact h.of_takes (.behind bytes w hsamples hbytes hadd)
  setMetadata h _ := ⟨h.maxSamples_eq, h.reset_eq⟩
  resolve h := h
  reset h := ⟨h.maxSamples_eq, h.reset_eq⟩

/-! ## Intervals and queues -/

theorem Sampling.keeps {σ : Type} [Collector σ] {P : σ → Prop} (h : Keeps P) (interval : Nat) :
    Keeps fun s : Sampling σ => s.interval = interval ∧ P s.inner where
  add {s} hs sample := by
    have hadded := h.add hs.2 sample
    show (Sampling.add sample s).2.interval = interval ∧ P (Sampling.add sample s).2.inner
    rw [Sampling.add]
    split
    · cases hadd : Collector.add sample s.inner with
      | mk result c =>
        rw [hadd] at hadded
        cases result with
        | error e => exact ⟨hs.1, hadded⟩
        | ok _ => exact ⟨hs.1, hadded⟩
    · exact hs
  setMetadata hs document := ⟨hs.1, h.setMetadata hs.2 document⟩
  resolve hs := ⟨hs.1, h.resolve hs.2⟩
  reset hs := ⟨hs.1, h.reset hs.2⟩

/-- A buffered collector, neither cancelled nor closed, has brought all it has taken to the wrapped collector. -/
structure Buffered.AtRest {σ : Type} (capacity : Nat) (b : Buffered σ) : Prop where
  pending_eq : b.pending = 0
  queue_eq : b.queue = []
  capacity_eq : b.capacity = capacity
  isOpen_eq : b.isOpen = true
  isJoined_eq : b.isJoined = false
  token_eq : b.token = .fresh

namespace Buffered

variable {σ : Type} {capacity : Nat} {b : Buffered σ}

theorem atRest_around (capacity : Nat) (inner : σ) : (around .fresh capacity inner).AtRest capacity :=
  ⟨rfl, rfl, rfl, rfl, rfl, rfl⟩

theorem AtRest.setInner (h : b.AtRest capacity) (inner : σ) : { b with inner }.AtRest capacity :=
  ⟨h.pending_eq, h.queue_eq, h.capacity_eq, h.isOpen_eq, h.isJoined_eq, h.token_eq⟩

variable [Collector σ]

namespace AtRest

/-- A worker has nothing to do when a request comes. -/
theorem sync_eq (h : b.AtRest capacity) : b.sync = b := by
  rw [sync, h.token_eq, h.isOpen_eq, settle, push, h.queue_eq]
  show { b with queue := [] } = b
  rw [← h.queue_eq]

/-- A sample is brought to the wrapped collector, and a refusal is kept. -/
theorem add_eq (h : b.AtRest capacity) (sample : Document) :
    Collector.add sample b = (.ok (), b.count.applyMessage (.sample sample)) := by
  show Buffered.add sample b = _
  rw [add, h.token_eq, h.isOpen_eq, settle, push, count, h.queue_eq]
  show (_, applyMessage { b with pending := b.pending + 1, queue := [] } (.sample sample)) = _
  rw [← h.queue_eq]

theorem add (h : b.AtRest capacity) (sample : Document) :
    (Collector.add sample b).2.AtRest capacity ∧
      (Collector.add sample b).2.inner = (Collector.add sample b.inner).2 := by
  rw [h.add_eq sample, count, applyMessage]
  split <;> rename_i hadd <;> rw [hadd]
  · exact ⟨⟨h.pending_eq, h.queue_eq, h.capacity_eq, h.isOpen_eq, h.isJoined_eq, h.token_eq⟩, rfl⟩
  · exact ⟨⟨h.pending_eq, h.queue_eq, h.capacity_eq, h.isOpen_eq, h.isJoined_eq, h.token_eq⟩, rfl⟩

/-- Nothing is left of what the worker has been refused. -/
theorem resetSettled_eq (h : b.AtRest capacity) :
    b.resetSettled = around .fresh capacity (Collector.reset b.inner) := by
  rw [resetSettled, around, h.pending_eq, h.queue_eq, h.capacity_eq, h.isOpen_eq, h.isJoined_eq, h.token_eq]

theorem reset_eq (h : b.AtRest capacity) :
    Collector.reset b = around .fresh capacity (Collector.reset b.inner) := by
  show b.sync.resetSettled = _
  rw [h.sync_eq, h.resetSettled_eq]

end AtRest

theorem keeps {P : σ → Prop} (h : Keeps P) (capacity : Nat) :
    Keeps fun b : Buffered σ => b.AtRest capacity ∧ P b.inner where
  add hb sample := ⟨(hb.1.add sample).1, (hb.1.add sample).2 ▸ h.add hb.2 sample⟩
  setMetadata hb document := ⟨hb.1.setInner _, h.setMetadata hb.2 document⟩
  resolve {b} hb := by
    show (Buffered.AtRest capacity b.sync.resolveSettled.2) ∧ P b.sync.resolveSettled.2.inner
    rw [hb.1.sync_eq, resolveSettled]
    split
    · exact ⟨hb.1.setInner _, h.resolve hb.2⟩
    · exact hb
  reset {b} hb := by
    rw [hb.1.reset_eq]
    exact ⟨atRest_around capacity _, h.reset hb.2⟩

end Buffered

/-! ## Stacks -/

namespace Plan

/-- A stack was built by its design. -/
def Built : (p : Plan) → p.State → Prop
  | .window maxDeltas z, (w : Window) => w.reset = .empty maxDeltas z
  | .batch maxSamples z, (b : Batch) => b.reset = .empty maxSamples z
  | .adaptive maxSamples z, (a : Adaptive) => a.reset = .empty maxSamples z
  | .streaming maxSamples z, (s : Streaming) => s.BuiltWith maxSamples z
  | .adaptiveStreaming maxSamples z, (s : AdaptiveStreaming) => s.inner.BuiltWith maxSamples z
  | .sampling interval inner, (s : Sampling inner.State) => s.interval = interval ∧ inner.Built s.inner
  | .buffered capacity inner, (b : Buffered inner.State) => b.AtRest capacity ∧ inner.Built b.inner

theorem built_start (sink : Sink) : (p : Plan) → p.Built (p.start sink .fresh)
  | .window _ _ | .batch _ _ | .adaptive _ _ => rfl
  | .streaming maxSamples z | .adaptiveStreaming maxSamples z =>
    Streaming.builtWith_empty maxSamples z sink
  | .sampling _ inner => ⟨rfl, inner.built_start sink⟩
  | .buffered capacity inner => ⟨Buffered.atRest_around capacity _, inner.built_start sink⟩

theorem keeps : (p : Plan) → Keeps p.Built
  | .window maxDeltas z => Window.keeps (.empty maxDeltas z)
  | .batch maxSamples z => Batch.keeps (.empty maxSamples z)
  | .adaptive maxSamples z => Adaptive.keeps (.empty maxSamples z)
  | .streaming maxSamples z => Streaming.keeps maxSamples z
  | .adaptiveStreaming maxSamples z => AdaptiveStreaming.keeps maxSamples z
  | .sampling interval inner => Sampling.keeps inner.keeps interval
  | .buffered capacity inner => Buffered.keeps inner.keeps capacity

theorem Built.elapse (millis : Nat) : ∀ {p : Plan} {s : p.State}, p.Built s → p.Built (p.elapse millis s)
  | .window _ _, _, h | .batch _ _, _, h | .adaptive _ _, _, h | .streaming _ _, _, h
  | .adaptiveStreaming _ _, _, h => h
  | .sampling _ inner, _, h => ⟨h.1, Built.elapse (p := inner) millis h.2⟩
  | .buffered _ inner, _, h => ⟨h.1.setInner _, Built.elapse (p := inner) millis h.2⟩

/-- How many chunks have been written to the sink. -/
def chunksWritten : (p : Plan) → p.State → Nat
  | .streaming _ _, (s : Streaming) => s.chunksWritten
  | .adaptiveStreaming _ _, (s : AdaptiveStreaming) => s.inner.chunksWritten
  | .sampling _ inner, (s : Sampling inner.State) => inner.chunksWritten s.inner
  | .buffered _ inner, (b : Buffered inner.State) => inner.chunksWritten b.inner
  | _, _ => 0

/-- What has been written to the sink. -/
def written (p : Plan) (s : p.State) : Bytes :=
  ((p.sink? s).map Sink.contents).getD []

/-- A stack that begins again continues a new one, in front of a sink that goes on as its own does. -/
theorem Built.reset_continues (sink : Sink) : ∀ {p : Plan} {s : p.State}, p.Built s →
    p.Continues (p.written s) (p.chunksWritten s) (reset s) (p.start ((p.sink? s).getD sink).anew .fresh)
  | .window _ _, _, h | .batch _ _, _, h | .adaptive _ _, _, h => h
  | .streaming _ _, _, h => Streaming.BuiltWith.reset_continues h
  | .adaptiveStreaming _ _, _, h => ⟨Streaming.BuiltWith.reset_continues h, rfl⟩
  | .sampling _ inner, s, h => ⟨h.1, rfl, Built.reset_continues (p := inner) sink h.2, Sampling.now s, rfl, rfl⟩
  | .buffered capacity inner, b, h => by
    have hinner := Built.reset_continues (p := inner) sink h.2
    have hreset := h.1.reset_eq
    exact hreset ▸ .mk _ hinner

end Plan

end Telemetry

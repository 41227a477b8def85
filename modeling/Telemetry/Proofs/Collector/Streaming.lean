import Telemetry.Collector.Streaming
import Telemetry.Proofs.Collector.Grouping
import Telemetry.Proofs.Collector.Segment

/-!
# What a streaming collector does

A streaming collector does one of few things at each request, and what becomes of its sink depends on the sink.
`Streaming.writeChunk_cases` says it for the one operation that writes, and `Streaming.takes` and
`AdaptiveStreaming.takes` for taking a sample. Nothing else opens these definitions.
-/

namespace Telemetry

/-! ## Sinks -/

/-- What a write call can do: all of the bytes are taken, or none. -/
theorem Sink.write_cases (bytes : Bytes) (s : Sink) :
    (s.refusesWrite s.writes = false ∧
      s.write bytes = (.ok (), { s with contents := s.contents ++ bytes, writes := s.writes + 1 })) ∨
    (s.refusesWrite s.writes = true ∧
      ∃ e, s.write bytes = (.error e, { s with writes := s.writes + 1 })) := by
  cases hrefuses : s.refusesWrite s.writes with
  | false => exact .inl ⟨rfl, by rw [write, hrefuses]; rfl⟩
  | true => exact .inr ⟨rfl, _, by rw [write, hrefuses]; rfl⟩

/-- A flush call takes nothing and returns nothing. -/
theorem Sink.contents_flush (s : Sink) : s.flush.2.contents = s.contents := by
  rw [flush]
  split <;> rfl

/-- A sink that refuses no call. -/
structure Sink.NeverRefuses (s : Sink) : Prop where
  writes : ∀ n, s.refusesWrite n = false
  flushes : ∀ n, s.refusesFlush n = false

namespace Streaming

/-! ## By number of samples -/

/-- The collector after its open window has been written as the given bytes. -/
def afterWrite (s : Streaming) (bytes : Bytes) : Streaming :=
  { s with
    current := s.current.reset
    sink := { s.sink with contents := s.sink.contents ++ bytes, writes := s.sink.writes + 1 }
    chunksWritten := s.chunksWritten + 1 }

/-- What writing the open window can do: nothing, if it holds no samples; write its records and begin a new
window; or fail, and leave the window and what the sink has taken as they are. -/
theorem writeChunk_cases (s : Streaming) :
    (s.current.info.samples = 0 ∧ s.writeChunk = (.ok (), s)) ∨
    (s.current.info.samples ≠ 0 ∧ ∃ bytes, s.current.resolve = .ok bytes ∧
      s.sink.refusesWrite s.sink.writes = false ∧ s.writeChunk = (.ok (), s.afterWrite bytes)) ∨
    (s.current.info.samples ≠ 0 ∧ ∃ e sink, s.writeChunk = (.error e, { s with sink }) ∧
      sink.contents = s.sink.contents ∧
      ((∃ e', s.current.resolve = .error e') ∨ s.sink.refusesWrite s.sink.writes = true)) := by
  by_cases hnone : s.current.info.samples = 0
  · exact .inl ⟨hnone, if_pos hnone⟩
  · have hinfo : (Collector.info s.current).samples ≠ 0 := hnone
    refine .inr ?_
    cases hresolve : s.current.resolve with
    | error e =>
      have hflush : Collector.flushInto s.current s.sink = (.error e, s.current, s.sink) := by
        rw [Collector.flushInto, if_neg hinfo]
        simp only [Collector.resolve, hresolve]
      refine .inr ⟨hnone, e, s.sink, ?_, rfl, .inl ⟨e, rfl⟩⟩
      rw [writeChunk, if_neg hnone, hflush]
    | ok bytes =>
      rcases Sink.write_cases bytes s.sink with ⟨htakes, hwrite⟩ | ⟨hrefuses, e, hwrite⟩
      · have hflush : Collector.flushInto s.current s.sink = (.ok (), s.current.reset,
            { s.sink with contents := s.sink.contents ++ bytes, writes := s.sink.writes + 1 }) := by
          rw [Collector.flushInto, if_neg hinfo]
          simp only [Collector.resolve, hresolve, hwrite]
          rfl
        refine .inl ⟨hnone, bytes, rfl, htakes, ?_⟩
        rw [writeChunk, if_neg hnone, hflush]
        rfl
      · have hflush : Collector.flushInto s.current s.sink = (.error e, s.current,
            { s.sink with writes := s.sink.writes + 1 }) := by
          rw [Collector.flushInto, if_neg hinfo]
          simp only [Collector.resolve, hresolve, hwrite]
        refine .inr ⟨hnone, e, { s.sink with writes := s.sink.writes + 1 }, ?_, rfl, .inr hrefuses⟩
        rw [writeChunk, if_neg hnone, hflush]

/-- A sample goes to the open window while that has room. -/
theorem add_of_room {s : Streaming} (hroom : s.current.info.samples < s.maxSamples) (sample : Document) :
    s.add sample = ((s.current.add sample).1, { s with current := (s.current.add sample).2 }) := by
  rw [add, if_neg (by omega)]

/-- A sample that finds the window full goes to a new one, after the full one has been written. -/
theorem add_of_written {s t : Streaming} (hfull : s.maxSamples ≤ s.current.info.samples)
    (hwrite : s.writeChunk = (.ok (), t)) (sample : Document) :
    s.add sample = ((t.current.add sample).1, { t with current := (t.current.add sample).2 }) := by
  rw [add, if_pos hfull, hwrite]

/-- A sample that finds the window full is refused if the window cannot be written. -/
theorem add_of_refused {s t : Streaming} {e : Error} (hfull : s.maxSamples ≤ s.current.info.samples)
    (hwrite : s.writeChunk = (.error e, t)) (sample : Document) : s.add sample = (.error e, t) := by
  rw [add, if_pos hfull, hwrite]

/-- A window that holds no samples takes any sample, and is not written before. -/
theorem exists_add_of_samples_eq_zero {s : Streaming} (h : s.current.info.samples = 0) (sample : Document) :
    ∃ w, s.current.add sample = (.ok (), w) ∧ s.add sample = (.ok (), { s with current := w }) := by
  obtain ⟨w, hadd⟩ := Window.exists_add_of_samples_eq_zero h sample
  by_cases hroom : s.current.info.samples < s.maxSamples
  · exact ⟨w, hadd, by rw [add_of_room hroom, hadd]⟩
  · have hwrite : s.writeChunk = (.ok (), s) := if_pos h
    exact ⟨w, hadd, by rw [add_of_written (Nat.le_of_not_lt hroom) hwrite, hadd]⟩

/-- What taking a sample can do: it is refused, and only the sink has been called; it goes to the open window; or the
open window is written, and it goes to a new one. -/
inductive Takes (s : Streaming) (sample : Document) : Except Error Unit → Streaming → Prop
  | refused (e : Error) (sink : Sink) (hcontents : sink.contents = s.sink.contents) :
    Takes s sample (.error e) { s with sink }
  | here (w : Window) (hadd : s.current.add sample = (.ok (), w)) :
    Takes s sample (.ok ()) { s with current := w }
  | behind (bytes : Bytes) (w : Window) (hsamples : s.current.info.samples ≠ 0)
    (hbytes : s.current.resolve = .ok bytes) (hadd : s.current.reset.add sample = (.ok (), w)) :
    Takes s sample (.ok ()) { s.afterWrite bytes with current := w }

/-- What the open window does with a sample, if the sample gets there, is what the collector does. -/
theorem takes_of_asked {s : Streaming} {sample : Document}
    (h : s.add sample = ((s.current.add sample).1, { s with current := (s.current.add sample).2 })) :
    s.Takes sample (s.add sample).1 (s.add sample).2 := by
  cases hadd : s.current.add sample with
  | mk result w =>
    rw [h, hadd]
    cases result with
    | ok _ => exact .here w hadd
    | error e =>
      obtain rfl := Window.eq_of_add_error hadd
      exact .refused e s.sink rfl

theorem takes (s : Streaming) (sample : Document) : s.Takes sample (s.add sample).1 (s.add sample).2 := by
  by_cases hroom : s.current.info.samples < s.maxSamples
  · exact takes_of_asked (add_of_room hroom sample)
  · have hfull := Nat.le_of_not_lt hroom
    rcases s.writeChunk_cases with ⟨-, hwrite⟩ | ⟨hsamples, bytes, hbytes, -, hwrite⟩ |
      ⟨-, e, sink, hwrite, hcontents, -⟩
    · exact takes_of_asked (add_of_written hfull hwrite sample)
    · -- the new window holds no samples, so it takes this one
      obtain ⟨w, hadd⟩ := Window.exists_add_of_samples_eq_zero (w := (s.afterWrite bytes).current) rfl sample
      rw [add_of_written hfull hwrite, hadd]
      exact .behind bytes w hsamples hbytes hadd
    · rw [add_of_refused hfull hwrite]
      exact .refused e sink hcontents

/-- A flush that cannot write the open window leaves the sink alone. -/
theorem flush_of_refused {s t : Streaming} {e : Error} (hwrite : s.writeChunk = (.error e, t)) :
    s.flush = (.error e, t) := by
  rw [flush, hwrite]

/-- After the open window has been written, the sink is flushed. -/
theorem flush_of_written {s t : Streaming} (hwrite : s.writeChunk = (.ok (), t)) :
    s.flush = (t.sink.flush.1, { t with sink := t.sink.flush.2 }) := by
  rw [flush, hwrite]

end Streaming

namespace AdaptiveStreaming

/-! ## Also by schema -/

/-- The open window stays for a sample that has the fingerprint of the last one, or is the first. -/
theorem turn_same {s : AdaptiveStreaming} {f : Fingerprint} (h : ∀ g ∈ s.fingerprint?, g = f) :
    s.turn f = (.ok (), s) := by
  rw [turn]
  cases hlast : s.fingerprint? with
  | none => rfl
  | some g =>
    rw [hlast] at h
    exact if_pos (h g rfl)

/-- The open window is written for a sample that has another fingerprint than the last one. -/
theorem turn_other {s : AdaptiveStreaming} {f g : Fingerprint} (hlast : s.fingerprint? = some g) (h : g ≠ f) :
    s.turn f = (s.inner.writeChunk.1, { s with inner := s.inner.writeChunk.2 }) := by
  rw [turn, hlast]
  exact if_neg h

/-- A sample is refused if the window of another schema cannot be written. -/
theorem add_of_refused {s t : AdaptiveStreaming} {e : Error} {sample : Document}
    (hturn : s.turn sample.fingerprint = (.error e, t)) : s.add sample = (.error e, t) := by
  rw [add, hturn]

/-- Otherwise it is taken or refused as by number of samples, and its fingerprint is remembered if it is taken. -/
theorem add_of_turned {s t : AdaptiveStreaming} {sample : Document}
    (hturn : s.turn sample.fingerprint = (.ok (), t)) :
    (∃ inner, t.inner.add sample = (.ok (), inner) ∧
      s.add sample = (.ok (), ⟨inner, some sample.fingerprint⟩)) ∨
    (∃ e inner, t.inner.add sample = (.error e, inner) ∧ s.add sample = (.error e, { t with inner })) := by
  rw [add, hturn]
  cases hadd : t.inner.add sample with
  | mk result inner =>
    cases result with
    | ok _ => exact .inl ⟨inner, rfl, by simp only [hadd]⟩
    | error e => exact .inr ⟨e, inner, rfl, by simp only [hadd]⟩

/-- What taking a sample can do. The open window that it goes to is for its fingerprint or holds no samples. -/
inductive Takes (s : AdaptiveStreaming) (sample : Document) : Except Error Unit → AdaptiveStreaming → Prop
  | refused (e : Error) (sink : Sink) (hcontents : sink.contents = s.inner.sink.contents) :
    Takes s sample (.error e) { s with inner := { s.inner with sink } }
  | here (w : Window) (hadd : s.inner.current.add sample = (.ok (), w))
    (hfor : (∀ g ∈ s.fingerprint?, g = sample.fingerprint) ∨ s.inner.current.info.samples = 0) :
    Takes s sample (.ok ()) ⟨{ s.inner with current := w }, some sample.fingerprint⟩
  | behind (bytes : Bytes) (w : Window) (hsamples : s.inner.current.info.samples ≠ 0)
    (hbytes : s.inner.current.resolve = .ok bytes) (hadd : s.inner.current.reset.add sample = (.ok (), w)) :
    Takes s sample (.ok ()) ⟨{ s.inner.afterWrite bytes with current := w }, some sample.fingerprint⟩

/-- If the open window need not be written for another schema, the sample is taken as by number of samples. -/
theorem takes_of_turned {s : AdaptiveStreaming} {sample : Document} (hturn : s.turn sample.fingerprint = (.ok (), s))
    (hfor : (∀ g ∈ s.fingerprint?, g = sample.fingerprint) ∨ s.inner.current.info.samples = 0) :
    s.Takes sample (s.add sample).1 (s.add sample).2 := by
  have htakes := s.inner.takes sample
  rcases add_of_turned hturn with ⟨inner, hinner, hs⟩ | ⟨e, inner, hinner, hs⟩ <;> rw [hs] <;> rw [hinner] at htakes
  · cases htakes with
    | here w hadd => exact .here w hadd hfor
    | behind bytes w hsamples hbytes hadd => exact .behind bytes w hsamples hbytes hadd
  · cases htakes with
    | refused _ sink hcontents => exact .refused e sink hcontents

theorem takes (s : AdaptiveStreaming) (sample : Document) : s.Takes sample (s.add sample).1 (s.add sample).2 := by
  by_cases hsame : ∀ g ∈ s.fingerprint?, g = sample.fingerprint
  · exact takes_of_turned (turn_same hsame) (.inl hsame)
  · push Not at hsame
    obtain ⟨g, hlast, hg⟩ := hsame
    have hturn := turn_other hlast hg
    rcases s.inner.writeChunk_cases with ⟨hnone, hwrite⟩ | ⟨hsamples, bytes, hbytes, -, hwrite⟩ |
      ⟨-, e, sink, hwrite, hcontents, -⟩ <;> rw [hwrite] at hturn
    · exact takes_of_turned hturn (.inr hnone)
    · obtain ⟨w, hadd, htaken⟩ := (s.inner.afterWrite bytes).exists_add_of_samples_eq_zero rfl sample
      rcases add_of_turned hturn with ⟨inner, hinner, hs⟩ | ⟨e, inner, hinner, hs⟩
      · obtain rfl := (Prod.mk.inj (htaken.symm.trans hinner)).2
        rw [hs]
        exact .behind bytes w hsamples hbytes hadd
      · have hne := (Prod.mk.inj (htaken.symm.trans hinner)).1
        simp at hne
    · rw [add_of_refused hturn]
      exact .refused e sink hcontents

end AdaptiveStreaming

end Telemetry

import Telemetry.Proofs.Collector.Chunking
import Telemetry.Proofs.Collector.Streaming
import Telemetry.Zlib.Stored

/-!
# Streaming collectors mirror the in-memory ones

A streaming collector keeps the open window of a batch and has already written what the batch keeps in full
windows (`Streaming.Mirrors`); the same holds of the adaptive kinds, batch by batch
(`AdaptiveStreaming.Mirrors`). So the two answer alike while they are fed, and when the streaming one is flushed
its sink has what the other resolves to: `Collector.streams_as` says both.

A batch can close a window that cannot be written, and finds out when it resolves; a streaming collector finds
out at once. They are alike only as long as every window closed resolves, which is what lengths below 2^32 are
needed for.
-/

namespace Telemetry

open Collector

namespace Streaming

/-- A streaming collector has the open window of a batch, and has written its full windows after what was in the
sink before. -/
structure Mirrors (k : Nat) (z : Compression) (front : Bytes) (s : Streaming) (b : Batch) : Prop where
  fills : ∃ segment, b.Fills k z segment
  current_eq : s.current = b.current
  maxSamples_eq : s.maxSamples = b.maxSamples
  contents_eq : ∃ pieces, b.closed.toList.mapM Window.resolve = .ok pieces ∧
    s.sink.contents = front ++ pieces.flatten
  never : s.sink.NeverRefuses

/-- A flush succeeds once the open window has been written, and takes nothing more. -/
theorem exists_flush_of_written {s t : Streaming} (hwrite : s.writeChunk = (.ok (), t))
    (h : t.sink.NeverRefuses) : ∃ u, s.flush = (.ok (), u) ∧ u.sink.contents = t.sink.contents := by
  refine ⟨{ t with sink := t.sink.flush.2 }, ?_, Sink.contents_flush t.sink⟩
  rw [flush_of_written hwrite, Sink.flush]
  simp only [h.flushes, Bool.false_eq_true, if_false]

/-- Every full window of a batch resolves. -/
def Good (b : Batch) : Prop :=
  ∀ w ∈ b.closed.toList, ∃ bytes, w.resolve = .ok bytes

namespace Mirrors

variable {k : Nat} {z : Compression} {front : Bytes} {s : Streaming} {b : Batch}

theorem empty (maxSamples : Nat) (z : Compression) {sink : Sink} (h : sink.NeverRefuses) :
    Mirrors (max maxSamples 1) z sink.contents (.empty maxSamples z sink) (.empty maxSamples z) where
  fills := ⟨_, .empty maxSamples z⟩
  current_eq := rfl
  maxSamples_eq := rfl
  contents_eq := ⟨[], rfl, by simp [Streaming.empty]⟩
  never := h

/-- The open window is written like that of a batch is closed: nothing but it goes to the sink, and a new one is
open. -/
theorem exists_writeChunk (h : s.Mirrors k z front b) (hsamples : b.current.info.samples ≠ 0) {bytes : Bytes}
    (hbytes : b.current.resolve = .ok bytes) :
    ∃ t pieces, s.writeChunk = (.ok (), t) ∧ b.windows.mapM Window.resolve = .ok pieces ∧
      t.current = Batch.window b.maxSamples b.compression ∧ t.maxSamples = b.maxSamples ∧
      t.sink.contents = front ++ pieces.flatten ∧ t.sink.NeverRefuses := by
  obtain ⟨pieces, hpieces, hcontents⟩ := h.contents_eq
  obtain ⟨segment, closed, last, hdivides, -⟩ := h.fills
  rcases s.writeChunk_cases with ⟨hnone, -⟩ | ⟨-, bytes', hresolve, -, hwrite⟩ | ⟨-, e, sink, -, -, hfailed⟩
  · rw [h.current_eq] at hnone
    exact absurd hnone hsamples
  · rw [h.current_eq, hbytes] at hresolve
    obtain rfl := Except.ok.inj hresolve
    refine ⟨_, pieces ++ [bytes], hwrite, mapM_concat_eq_ok hpieces hbytes, ?_, h.maxSamples_eq, ?_,
      ⟨h.never.writes, h.never.flushes⟩⟩
    · have hroom := hdivides.room_eq
      show s.current.reset = Batch.window b.maxSamples b.compression
      rw [h.current_eq, Window.reset, Batch.window, hdivides.current_fills.compression_eq, hdivides.compression_eq,
        hdivides.maxSamples_eq, ← hroom, Nat.add_sub_cancel]
    · simp [Streaming.afterWrite, hcontents]
  · rcases hfailed with ⟨e', hresolve⟩ | hrefuses
    · rw [h.current_eq, hbytes] at hresolve
      simp at hresolve
    · rw [h.never.writes] at hrefuses
      simp at hrefuses

/-- A sample is taken by both or refused by both, for one reason, if a window that it closes resolves. -/
theorem added (h : s.Mirrors k z front b) {sample : Document} (hgood : Good (b.add sample).2) :
    (s.add sample).1 = (b.add sample).1 ∧ (s.add sample).2.Mirrors k z front (b.add sample).2 := by
  obtain ⟨segment, hfills⟩ := h.fills
  obtain ⟨closed, last, hdivides, -⟩ := id hfills
  have hinfo : b.current.info.samples = last.length := hdivides.current_fills.holds.samples_info
  rcases hdivides.add_cases sample with ⟨hlt, w, hw, heq⟩ | ⟨hlt, e, hw, heq⟩ | ⟨hfull, w, hw, heq⟩
  · have hroom : s.current.info.samples < s.maxSamples := by
      rw [h.current_eq, hinfo, h.maxSamples_eq, hdivides.maxSamples_eq]
      exact hlt
    rw [add_of_room hroom, h.current_eq, hw, heq]
    refine ⟨rfl, ?_⟩
    exact { h with
      fills := ⟨_, hfills.added heq⟩
      current_eq := rfl }
  · have hroom : s.current.info.samples < s.maxSamples := by
      rw [h.current_eq, hinfo, h.maxSamples_eq, hdivides.maxSamples_eq]
      exact hlt
    rw [add_of_room hroom, h.current_eq, hw, heq]
    refine ⟨rfl, ?_⟩
    exact { h with current_eq := rfl }
  · have hpos := hdivides.pos
    have hroom : s.maxSamples ≤ s.current.info.samples := by
      rw [h.current_eq, hinfo, h.maxSamples_eq, hdivides.maxSamples_eq, hfull]
    -- the batch closes the window without looking at it; that it can be written is known from afterwards
    obtain ⟨bytes, hbytes⟩ : ∃ bytes, b.current.resolve = .ok bytes := by
      rw [heq] at hgood
      exact hgood b.current (by simp)
    obtain ⟨t, pieces, hwrite, hpieces, hcurrent, hmax, hcontents, hnever⟩ :=
      h.exists_writeChunk (by omega) hbytes
    rw [add_of_written hroom hwrite, hcurrent, hw, heq]
    refine ⟨rfl, ?_⟩
    exact {
      fills := ⟨_, hfills.added heq⟩
      current_eq := rfl
      maxSamples_eq := hmax
      contents_eq := ⟨pieces, by rw [Array.toList_push]; exact hpieces, hcontents⟩
      never := hnever }

/-- A document is put in front by both, while the batch has no full window. -/
theorem setMetadata (h : s.Mirrors k z front b) (hclosed : b.closed.isEmpty) (d : Document) :
    (s.setMetadata d).Mirrors k z front (b.setMetadata d) := by
  obtain ⟨segment, hfills⟩ := h.fills
  have hset : b.setMetadata d = { b with current := b.current.setMetadata d } := by
    rw [Batch.setMetadata, if_pos hclosed]
  have hfills' := hfills.setMetadata d
  rw [hset] at hfills' ⊢
  exact { h with
    fills := ⟨_, hfills'⟩
    current_eq := by rw [← h.current_eq]; rfl }

/-- After the open window has been written, a new batch is mirrored, after what the old one resolves to. -/
theorem exists_written (h : s.Mirrors k z front b) {segment : Segment} (hfills : b.Fills k z segment)
    (hne : segment.samples ≠ []) {bytes : Bytes} (hbytes : b.resolve = .ok bytes) {maxSamples : Nat}
    (hmax : max maxSamples 1 = k) :
    ∃ t, s.writeChunk = (.ok (), t) ∧ t.Mirrors k z (front ++ bytes) (.empty maxSamples z) := by
  obtain ⟨closed, last, hdivides, -⟩ := id hfills
  obtain ⟨piece, hpiece⟩ := Batch.exists_resolve_current hbytes
  obtain ⟨t, pieces, hwrite, hpieces, hcurrent, hroom, hcontents, hnever⟩ :=
    h.exists_writeChunk (hfills.current_ne hne) hpiece
  rw [Batch.resolve, hpieces] at hbytes
  obtain rfl := Except.ok.inj hbytes
  subst hmax
  refine ⟨t, hwrite, ?_⟩
  exact {
    fills := ⟨_, .empty maxSamples z⟩
    current_eq := by rw [hcurrent, hdivides.maxSamples_eq, hdivides.compression_eq]; rfl
    maxSamples_eq := hroom.trans hdivides.maxSamples_eq
    contents_eq := ⟨[], rfl, by rw [hcontents, List.flatten_nil, List.append_nil]⟩
    never := hnever }

/-- After a flush the sink has what the batch resolves to, if that holds samples and resolves. -/
theorem exists_flush (h : s.Mirrors k z front b) {segment : Segment} (hfills : b.Fills k z segment)
    (hresolve : segment.samples ≠ [] → ∃ bytes, b.resolve = .ok bytes) :
    ∃ t, s.flush = (.ok (), t) ∧
      ((∃ bytes, b.resolve = .ok bytes ∧ t.sink.contents = front ++ bytes) ∨
        (b.resolve = .error .noReference ∧ t.sink.contents = front)) := by
  by_cases hnil : segment.samples = []
  · -- without samples nothing has been written and nothing is, also not a document
    obtain ⟨hclosed, hsamples⟩ := hfills.eq_nil hnil
    obtain ⟨pieces, hpieces, hcontents⟩ := h.contents_eq
    rw [hclosed] at hpieces
    obtain rfl := Except.ok.inj hpieces
    have hwrite : s.writeChunk = (.ok (), s) := by
      rw [writeChunk, if_pos (by rw [h.current_eq, hsamples])]
    obtain ⟨u, hflush, hsink⟩ := exists_flush_of_written hwrite h.never
    refine ⟨u, hflush, .inr ⟨hfills.resolve_nil hnil, ?_⟩⟩
    rw [hsink, hcontents, List.reverse_nil, List.flatten_nil, List.append_nil]
  · obtain ⟨bytes, hbytes⟩ := hresolve hnil
    obtain ⟨last, hlast⟩ := Batch.exists_resolve_current hbytes
    obtain ⟨t, pieces, hwrite, hpieces, -, -, hcontents, hnever⟩ :=
      h.exists_writeChunk (hfills.current_ne hnil) hlast
    obtain ⟨u, hflush, hsink⟩ := exists_flush_of_written hwrite hnever
    refine ⟨u, hflush, .inl ⟨pieces.flatten, ?_, ?_⟩⟩
    · rw [Batch.resolve, hpieces]
      rfl
    · rw [hsink, hcontents]

end Mirrors

/-- The full windows of a batch that resolves do so too. -/
theorem good_of_resolve {b : Batch} {bytes : Bytes} (h : b.resolve = .ok bytes) : Good b :=
  fun w hw => Batch.exists_resolve_of_mem h w (List.mem_append_left _ hw)

/-- A batch that was good is good no more only if it closes a window that does not resolve. -/
theorem good_of_add {b : Batch} {sample : Document} (h : Good (b.add sample).2) : Good b := by
  intro w hw
  apply h w
  show w ∈ b.roll.closed.toList
  rw [Batch.roll]
  split
  · rw [Array.toList_push]
    exact List.mem_append_left _ hw
  · exact hw

/-- A batch that resolves, or has nothing to resolve, is good. -/
theorem good_of_fills {k : Nat} {z : Compression} {b : Batch} {segment : Segment} (h : b.Fills k z segment)
    (hresolve : segment.samples ≠ [] → ∃ bytes, b.resolve = .ok bytes) : Good b := by
  by_cases hnil : segment.samples = []
  · intro w hw
    simp [(h.eq_nil hnil).1] at hw
  · obtain ⟨bytes, hbytes⟩ := hresolve hnil
    exact good_of_resolve hbytes

/-- A streaming collector does what a batch does, as long as the full windows of the batch resolve. -/
theorem simulates (k : Nat) (z : Compression) (front : Bytes) :
    Simulates (fun (s : Streaming) (b : Batch) => s.Mirrors k z front b ∧ b.closed.isEmpty)
      (fun s b => s.Mirrors k z front b) Good where
  metadataSet {_ b d} h := by
    obtain ⟨hmirrors, hclosed⟩ := h
    refine ⟨hmirrors.setMetadata hclosed d, ?_⟩
    show (b.setMetadata d).closed.isEmpty
    rw [Batch.setMetadata, if_pos hclosed]
    exact hclosed
  begun h := h.1
  added h hgood := h.added hgood
  good_of_add := good_of_add

end Streaming

namespace AdaptiveStreaming

/-- A streaming collector has the open window of an adaptive one, and has written its earlier batches and the full
windows of its current batch. -/
structure Mirrors (k : Nat) (z : Compression) (front : Bytes) (s : AdaptiveStreaming) (a : Adaptive) : Prop where
  fills : ∃ segment, a.Fills k z segment
  fingerprint?_eq : s.fingerprint? = a.fingerprint?
  inner_mirrors : ∃ pieces, a.closed.toList.mapM Batch.resolve = .ok pieces ∧
    s.inner.Mirrors k z (front ++ pieces.flatten) a.current

/-- Every earlier batch resolves, and so does every full window of the current one. -/
def Good (a : Adaptive) : Prop :=
  (∀ b ∈ a.closed.toList, ∃ bytes, b.resolve = .ok bytes) ∧ Streaming.Good a.current

namespace Mirrors

variable {k : Nat} {z : Compression} {front : Bytes} {s : AdaptiveStreaming} {a : Adaptive}

theorem empty (maxSamples : Nat) (z : Compression) {sink : Sink} (h : sink.NeverRefuses) :
    Mirrors (max maxSamples 1) z sink.contents (.empty maxSamples z sink)
      (.empty maxSamples z) where
  fills := ⟨_, .empty maxSamples z⟩
  fingerprint?_eq := rfl
  inner_mirrors := ⟨[], rfl, by
    rw [List.flatten_nil, List.append_nil]
    exact .empty maxSamples z h⟩

/-- Once the batch for a sample is mirrored, so is the batch after the sample, and the sample gets the same
answer. -/
theorem added_of_turned {t : AdaptiveStreaming} {b : Batch} {sample : Document}
    (hturn : s.turn sample.fingerprint = (.ok (), t)) (h : t.inner.Mirrors k z front b)
    (hgood : Streaming.Good (b.add sample).2) :
    (s.add sample).1 = (b.add sample).1 ∧ (s.add sample).2.inner.Mirrors k z front (b.add sample).2 ∧
      (s.add sample).2.fingerprint? =
        if (b.add sample).1.isOk then some sample.fingerprint else t.fingerprint? := by
  obtain ⟨hresult, hinner⟩ := h.added hgood
  rcases add_of_turned hturn with ⟨inner, hadd, hs⟩ | ⟨e, inner, hadd, hs⟩
  · rw [hadd] at hresult hinner
    rw [hs, ← hresult]
    exact ⟨rfl, hinner, rfl⟩
  · rw [hadd] at hresult hinner
    rw [hs, ← hresult]
    exact ⟨rfl, hinner, rfl⟩

/-- A sample is taken by both or refused by both, for one reason, if a batch that it closes resolves. -/
theorem added (h : s.Mirrors k z front a) {sample : Document} (hgood : Good (a.add sample).2) :
    (s.add sample).1 = (a.add sample).1 ∧ (s.add sample).2.Mirrors k z front (a.add sample).2 := by
  obtain ⟨segment, hfills⟩ := h.fills
  obtain ⟨closed, last, hturns, -⟩ := id hfills
  obtain ⟨pieces, hpieces, hinner⟩ := h.inner_mirrors
  have hlast? : s.fingerprint? = last.getLast?.map Document.fingerprint :=
    h.fingerprint?_eq.trans hturns.fingerprint?_eq
  rcases hturns.add_cases sample with ⟨hsame, b, hb, heq⟩ | ⟨hsame, e, hb, heq⟩ | ⟨d, hlast, hd, b, hb, heq⟩
  · have hturn : s.turn sample.fingerprint = (.ok (), s) := turn_same (by simpa [hlast?] using hsame)
    rw [heq] at hgood ⊢
    obtain ⟨hresult, hinner', hfingerprint⟩ := added_of_turned hturn hinner (by rw [hb]; exact hgood.2)
    rw [hb] at hresult hinner' hfingerprint
    exact ⟨hresult, ⟨_, hfills.added heq⟩, hfingerprint, pieces, hpieces, hinner'⟩
  · have hturn : s.turn sample.fingerprint = (.ok (), s) := turn_same (by simpa [hlast?] using hsame)
    rw [heq] at hgood ⊢
    obtain ⟨hresult, hinner', hfingerprint⟩ := added_of_turned hturn hinner (by rw [hb]; exact hgood.2)
    rw [hb] at hresult hinner' hfingerprint
    exact ⟨hresult, ⟨_, hfills⟩, hfingerprint.trans h.fingerprint?_eq, pieces, hpieces, hinner'⟩
  · rw [heq] at hgood ⊢
    have hne : last ≠ [] := by
      rintro rfl
      simp at hlast
    -- what the batch leaves behind is in the sink as a whole, once its open window has been written
    obtain ⟨bytes, hbytes⟩ : ∃ bytes, a.current.resolve = .ok bytes := hgood.1 a.current (by simp)
    obtain ⟨inner, hwrite, hwritten⟩ := hinner.exists_written hturns.current_fills hne hbytes hturns.maxSamples_eq
    have hturn : s.turn sample.fingerprint = (.ok (), { s with inner }) := by
      rw [turn_other (by rw [hlast?, hlast]; rfl) hd, hwrite]
    rw [← hturns.compression_eq] at hwritten
    obtain ⟨hresult, hinner', hfingerprint⟩ := added_of_turned hturn hwritten (by rw [hb]; exact hgood.2)
    rw [hb] at hresult hinner' hfingerprint
    refine ⟨hresult, ⟨_, hfills.added heq⟩, hfingerprint, pieces ++ [bytes], ?_, ?_⟩
    · rw [Array.toList_push]
      exact mapM_concat_eq_ok hpieces hbytes
    · rw [List.flatten_concat, ← List.append_assoc, ← hturns.compression_eq]
      exact hinner'

/-- A document is put in front by both, while there is nothing but a batch without full windows. -/
theorem setMetadata (h : s.Mirrors k z front a) (hclosed : a.closed.isEmpty ∧ a.current.closed.isEmpty)
    (d : Document) : (s.setMetadata d).Mirrors k z front (a.setMetadata d) := by
  obtain ⟨segment, hfills⟩ := h.fills
  obtain ⟨pieces, hpieces, hinner⟩ := h.inner_mirrors
  have hset : a.setMetadata d = { a with current := a.current.setMetadata d } := by
    rw [Adaptive.setMetadata, if_pos hclosed.1]
  have hfills' := hfills.setMetadata d
  rw [hset] at hfills' ⊢
  exact ⟨⟨_, hfills'⟩, h.fingerprint?_eq, pieces, hpieces, hinner.setMetadata hclosed.2 d⟩

/-- After a flush the sink has what the adaptive collector resolves to, if that holds samples and resolves. -/
theorem exists_flush (h : s.Mirrors k z front a) {segment : Segment} (hfills : a.Fills k z segment)
    (hresolve : segment.samples ≠ [] → ∃ bytes, a.resolve = .ok bytes) :
    ∃ t, s.flush = (.ok (), t) ∧
      ((∃ bytes, a.resolve = .ok bytes ∧ t.inner.sink.contents = front ++ bytes) ∨
        (a.resolve = .error .noReference ∧ t.inner.sink.contents = front)) := by
  obtain ⟨closed, last, hturns, hsamples⟩ := id hfills
  obtain ⟨pieces, hpieces, hinner⟩ := h.inner_mirrors
  have hcurrent : last ≠ [] → ∃ bytes, a.current.resolve = .ok bytes := by
    intro hne
    obtain ⟨bytes, hbytes⟩ := hresolve (by
      rw [← hsamples]
      exact List.append_ne_nil_of_right_ne_nil _ hne)
    exact Adaptive.exists_resolve_of_mem hbytes _ (by simp [Adaptive.batches])
  obtain ⟨t, hflush, houtcome⟩ := hinner.exists_flush hturns.current_fills hcurrent
  refine ⟨{ s with inner := t }, by rw [flush, hflush], ?_⟩
  rcases houtcome with ⟨bytes, hbytes, hcontents⟩ | ⟨hnone, hcontents⟩
  · refine .inl ⟨(pieces ++ [bytes]).flatten, ?_, ?_⟩
    · rw [Adaptive.resolve, Adaptive.batches, mapM_concat_eq_ok hpieces hbytes]
      rfl
    · show t.sink.contents = front ++ (pieces ++ [bytes]).flatten
      rw [hcontents, List.flatten_concat, List.append_assoc]
  · have hlast : last = [] := by
      by_contra hne
      obtain ⟨bytes, hbytes⟩ := hcurrent hne
      simp [hbytes] at hnone
    have hclosed : closed = [] := by
      by_contra hne
      exact hturns.last_ne_nil hne hlast
    subst hlast hclosed
    rw [List.forall₂_nil_right_iff.mp hturns.closed_fill] at hpieces
    obtain rfl := Except.ok.inj hpieces
    refine .inr ⟨hfills.resolve_nil hsamples.symm, ?_⟩
    show t.sink.contents = front
    rw [hcontents, List.reverse_nil, List.flatten_nil, List.append_nil]

end Mirrors

/-- An adaptive collector that was good is good no more only if it closes what does not resolve. -/
theorem good_of_add {a : Adaptive} {sample : Document} (h : Good (a.add sample).2) : Good a := by
  have hturn : Good (a.turn sample.fingerprint) := by
    rw [Adaptive.add] at h
    split at h
    next hadd => exact ⟨h.1, Streaming.good_of_add (by rw [hadd]; exact h.2)⟩
    next hadd => exact ⟨h.1, Streaming.good_of_add (by rw [hadd]; exact h.2)⟩
  rw [Adaptive.turn] at hturn
  split at hturn
  next =>
    split at hturn
    next => exact hturn
    next =>
      -- the batch that has been closed resolves, and so do its full windows
      obtain ⟨bytes, hbytes⟩ := hturn.1 a.current (by simp)
      exact ⟨fun b hb => hturn.1 b (by simp [hb]), Streaming.good_of_resolve hbytes⟩
  next => exact hturn

/-- An adaptive collector that resolves, or has nothing to resolve, is good. -/
theorem good_of_fills {k : Nat} {z : Compression} {a : Adaptive} {segment : Segment} (h : a.Fills k z segment)
    (hresolve : segment.samples ≠ [] → ∃ bytes, a.resolve = .ok bytes) : Good a := by
  by_cases hnil : segment.samples = []
  · obtain ⟨closed, last, hturns, hsamples⟩ := h
    rw [hnil] at hsamples
    obtain ⟨rfl, rfl⟩ := hturns.eq_nil hsamples
    refine ⟨?_, Streaming.good_of_fills hturns.current_fills (absurd rfl)⟩
    rw [List.forall₂_nil_right_iff.mp hturns.closed_fill]
    simp
  · obtain ⟨bytes, hbytes⟩ := hresolve hnil
    have hbatches := Adaptive.exists_resolve_of_mem hbytes
    obtain ⟨piece, hcurrent⟩ := hbatches a.current (by simp [Adaptive.batches])
    exact ⟨fun b hb => hbatches b (List.mem_append_left _ hb), Streaming.good_of_resolve hcurrent⟩

/-- A streaming collector does what an adaptive one does, as long as what that one closes resolves. -/
theorem simulates (k : Nat) (z : Compression) (front : Bytes) :
    Simulates (fun (s : AdaptiveStreaming) (a : Adaptive) =>
        s.Mirrors k z front a ∧ a.closed.isEmpty ∧ a.current.closed.isEmpty)
      (fun s a => s.Mirrors k z front a) Good where
  metadataSet {_ a d} h := by
    obtain ⟨hmirrors, hclosed⟩ := h
    refine ⟨hmirrors.setMetadata hclosed d, ?_⟩
    show (a.setMetadata d).closed.isEmpty ∧ (a.setMetadata d).current.closed.isEmpty
    rw [Adaptive.setMetadata, if_pos hclosed.1, Batch.setMetadata, if_pos hclosed.2]
    exact hclosed
  begun h := h.1
  added h hgood := h.added hgood
  good_of_add := good_of_add

end AdaptiveStreaming

/-! ## The same bytes -/

/-- One collector writes what another gives back. However they are fed, with documents in front and then samples,
they give the same answers. A flush then succeeds, and what comes after the contents of the sink before is what
the other collector resolves to, or nothing if that has nothing to resolve. Lengths have to fit: those of the
documents in front, and those of the payloads of the samples taken, as the other collector cuts them. -/
def Collector.StreamsAs {σ τ : Type} [Collector σ] [Collector τ] (flush : σ → Except Error Unit × σ)
    (contents : σ → Bytes) (s : σ) (t : τ) (cut : List Document → List (List Document)) : Prop :=
  ∀ metadata samples : List Document,
    (∀ d ∈ metadata, Document.size d < UInt32.size) →
    (∀ g ∈ cut (run t .empty (feeding metadata samples)).2.accepted,
      (Segment.payload g).length < UInt32.size) →
    answers s (feeding metadata samples) = answers t (feeding metadata samples) ∧
    ∃ s', flush (run s .empty (feeding metadata samples)).1 = (.ok (), s') ∧
      ((∃ bytes, (resolve (run t .empty (feeding metadata samples)).1).1 = .ok bytes ∧
          contents s' = contents s ++ bytes) ∨
        ((resolve (run t .empty (feeding metadata samples)).1).1 = .error .noReference ∧
          contents s' = contents s))

/-- The document in front of a collector that was fed has a length that fits, if those fed have. -/
theorem Collector.size_lt_of_feeding {σ : Type} [Collector σ] (c : σ) {metadata : List Document}
    (h : ∀ d ∈ metadata, Document.size d < UInt32.size) (samples : List Document) :
    ∀ d ∈ (run c .empty (feeding metadata samples)).2.metadata?, Document.size d < UInt32.size := by
  intro d hd
  rcases mem_of_metadata?_feeding c .empty metadata samples d hd with hd | hd
  · simp [Ledger.empty] at hd
  · exact h d hd

/-- Over a sink that takes everything, a streaming collector writes what a batch gives back, and the adaptive kind
what an adaptive collector gives back. -/
theorem Collector.streams_as (maxSamples : Nat) (z : Compression) {sink : Sink} (h : sink.NeverRefuses) :
    StreamsAs Streaming.flush (fun s => s.sink.contents) (Streaming.empty maxSamples z sink)
      (Batch.empty maxSamples z) (inGroups (max maxSamples 1)) ∧
    StreamsAs AdaptiveStreaming.flush (fun s => s.inner.sink.contents)
      (AdaptiveStreaming.empty maxSamples z sink) (Adaptive.empty maxSamples z)
      (inGroupsOfRuns (max maxSamples 1)) := by
  refine ⟨?_, ?_⟩
  · intro metadata samples hmetadata hpayload
    have hfills := (Batch.tracks_fills (max maxSamples 1) z).run (l := Ledger.empty)
      (Batch.Fills.empty maxSamples z) (feeding metadata samples)
    have hmetadata' := size_lt_of_feeding (Batch.empty maxSamples z) hmetadata samples
    have hresolve := hfills.exists_resolve (Segment.writable_ofGroups hmetadata' hpayload)
    obtain ⟨hanswers, hmirrors⟩ := (Streaming.simulates (max maxSamples 1) z sink.contents).answers_feeding
      ⟨.empty maxSamples z h, rfl⟩ .empty .empty (Streaming.good_of_fills hfills hresolve)
    exact ⟨hanswers, hmirrors.exists_flush hfills hresolve⟩
  · intro metadata samples hmetadata hpayload
    have hfills := (Adaptive.tracks_fills (max maxSamples 1) z).run (l := Ledger.empty)
      (Adaptive.Fills.empty maxSamples z) (feeding metadata samples)
    have hmetadata' := size_lt_of_feeding (Adaptive.empty maxSamples z) hmetadata samples
    have hresolve := hfills.exists_resolve (Segment.writable_ofGroups hmetadata' hpayload)
    obtain ⟨hanswers, hmirrors⟩ :=
      (AdaptiveStreaming.simulates (max maxSamples 1) z sink.contents).answers_feeding
        ⟨.empty maxSamples z h, rfl, rfl⟩ .empty .empty (AdaptiveStreaming.good_of_fills hfills hresolve)
    exact ⟨hanswers, hmirrors.exists_flush hfills hresolve⟩

/-- With room for two samples in a chunk, a sample of another type is refused, and the two that are taken leave
their chunk in the sink. -/
theorem Collector.streams_one_chunk :
    ∃ s bytes, Streaming.flush (run (Streaming.empty 2 ⟨.stored, 6⟩ .empty) .empty (feeding [[("h", .null)]]
        [[("x", .int32 1)], [("x", .int64 0)], [("x", .int32 2)]])).1 = (.ok (), s) ∧
      (run (Batch.empty 2 ⟨.stored, 6⟩) .empty (feeding [[("h", .null)]]
        [[("x", .int32 1)], [("x", .int64 0)], [("x", .int32 2)]])).1.resolve = .ok bytes ∧
      s.sink.contents = bytes := by
  have hnever : Sink.empty.NeverRefuses := ⟨fun _ => rfl, fun _ => rfl⟩
  have haccepted : (run (Batch.empty 2 ⟨.stored, 6⟩) .empty (feeding [[("h", .null)]]
      [[("x", .int32 1)], [("x", .int64 0)], [("x", .int32 2)]])).2.accepted =
        [[("x", .int32 1)], [("x", .int32 2)]] := by
    rfl
  have hpayload : ∀ g ∈ inGroups (max 2 1) [[("x", .int32 1)], [("x", .int32 2)]],
      (Segment.payload g).length < UInt32.size := by
    rw [inGroups_of_length_le (by decide) (by decide)]
    decide +kernel
  rw [← haccepted] at hpayload
  obtain ⟨-, s, hflush, hcontents⟩ := (Collector.streams_as 2 ⟨.stored, 6⟩ hnever).1 [[("h", .null)]]
    [[("x", .int32 1)], [("x", .int64 0)], [("x", .int32 2)]] (by decide) hpayload
  rcases hcontents with ⟨bytes, hbytes, hcontents⟩ | ⟨hnone, -⟩
  · exact ⟨s, bytes, hflush, hbytes, hcontents⟩
  · have hsome : (resolve (run (Batch.empty 2 ⟨.stored, 6⟩) .empty (feeding [[("h", .null)]]
        [[("x", .int32 1)], [("x", .int64 0)], [("x", .int32 2)]])).1).1.isOk = true := by
      decide +kernel
    rw [hnone] at hsome
    exact absurd hsome (by decide)

end Telemetry

import Telemetry.Proofs.Chunk.Iterator
import Telemetry.Proofs.Chunk.Reader

/-!
# Reading does not depend on how bytes are delivered

What is read from a source that does not fail depends on its bytes alone. A record is read exactly if it can be decoded
in memory, and then the source has delivered its bytes and no others; so a reader gives the same chunks and the same
error whatever the schedule of the source, and iterators answer the same to any calls.

A source that fails at some position gives the records that lie wholly before it (`Record.reads_of_take`), and so the
chunks of these records (`Course.entries_of_failure`).
-/

namespace Telemetry

open Record ChunkReader StreamIterator

namespace StreamIterator

/-- Without a signal there is nothing to be given. -/
theorem cancel_of_token?_eq_none {it : StreamIterator} (h : it.pull.token? = none) : it.cancel = it := by
  match it with
  | .chunks p | .matrices p =>
    obtain ⟨reader, token?, error?, metadata?⟩ := p
    obtain rfl : token? = none := h
    rfl
  | .samples it =>
    obtain ⟨⟨reader, token?, error?, metadata?⟩, shape, current?, position⟩ := it
    obtain rfl : token? = none := h
    rfl

/-- Without a signal, iterators in one phase give the same answer to a call and are in one phase afterwards. -/
theorem Refines.serve_congr {s u : Source} {it jt : StreamIterator} {ph : Phase} (h : it.Refines s ph)
    (h' : jt.Refines u ph) (hnone : it.pull.token? = none) (hnone' : jt.pull.token? = none) (c : Call) :
    (it.serve c).1 = (jt.serve c).1 ∧ ∃ ph', (it.serve c).2.Refines s ph' ∧ (jt.serve c).2.Refines u ph' := by
  cases c with
  | next => exact ⟨congrArg Answer.item (h.next.1.trans h'.next.1.symm), _, h.next.2, h'.next.2⟩
  | close => exact ⟨congrArg Answer.closed (h.close.1.trans h'.close.1.symm), _, h.close.2, h'.close.2⟩
  | metadata => exact ⟨congrArg Answer.metadata (h.metadata_eq.trans h'.metadata_eq.symm), ph, h, h'⟩
  | cancel =>
    refine ⟨rfl, ph, ?_, ?_⟩
    · rwa [StreamIterator.serve, cancel_of_token?_eq_none hnone]
    · rwa [StreamIterator.serve, cancel_of_token?_eq_none hnone']

/-- Iterators in one phase, both with a signal or both without one, give the same answers to all calls. -/
theorem Refines.answers_congr {s u : Source} {it jt : StreamIterator} {ph : Phase} (h : it.Refines s ph)
    (h' : jt.Refines u ph) (htoken : it.pull.token?.isSome = jt.pull.token?.isSome) (calls : List Call) :
    it.answers calls = jt.answers calls := by
  cases hsome : it.pull.token?.isSome with
  | true => rw [h.answers_eq hsome, h'.answers_eq (htoken ▸ hsome)]
  | false =>
    induction calls generalizing it jt ph with
    | nil => rfl
    | cons c calls ih =>
      have hsome' : jt.pull.token?.isSome = false := htoken ▸ hsome
      obtain ⟨hanswer, ph', hit, hjt⟩ := h.serve_congr h' (by simpa using hsome) (by simpa using hsome') c
      have hkept := (isSome_token?_serve it c).trans hsome
      have hkept' := (isSome_token?_serve jt c).trans hsome'
      rw [answers, answers, hanswer, ih hit hjt (hkept.trans hkept'.symm) hkept]

end StreamIterator

namespace ChunkReader

/-- A source that fails gives the chunks of the stream whose records end where it fails or before. -/
theorem Course.entries_of_failure {s u : Source} {failure : SourceFailure} (hs : s.failure? = some failure)
    (hu : u.Holds s.rest) :
    (Course.ofSource s).entries =
      (Course.ofSource u).entries.filter fun y => s.position + y.endOffset ≤ failure.position := by
  have hsupply : s.supply = s.rest.take (failure.position - s.position) := by rw [Source.supply, hs]
  rw [Course.ofSource, reads_of_take hu hsupply, Course.entries_whole (reads u).2]
  refine List.filter_congr fun y _ => decide_eq_decide.mpr ?_
  have hpos : 0 < y.endOffset := by
    have hrecord := length_encode_pos y.record
    rw [Entry.endOffset, Entry.upTo, List.flatMap_append, List.length_append, List.flatMap_singleton]
    omega
  rw [List.flatMap_nil, List.length_nil, Nat.zero_add]
  omega

variable {s u : Source} {bytes : Bytes}

/-- The course of a stream is told by its bytes. -/
theorem Course.ofSource_congr (hs : s.Holds bytes) (hu : u.Holds bytes) : Course.ofSource s = Course.ofSource u := by
  rw [Course.ofSource, Course.ofSource, reads_congr hs hu]

/-- How a source hands out its bytes makes no difference to iterators over it. -/
theorem answers_ofSource_congr (hs : s.Holds bytes) (hu : u.Holds bytes) (view : View)
    (token? : Option CancelToken) (calls : List Call) :
    (view.ofSource s token?).answers calls = (view.ofSource u token?).answers calls := by
  obtain ⟨-, -, all, hall, -⟩ := keeps_protocol u view
  have hit : (view.ofSource s token?).Refines s (.start token? all (Course.ofSource s).error?) :=
    .ofSource (Course.ofSource_congr hs hu ▸ hall) token?
  rw [Course.ofSource_congr hs hu] at hit
  exact hit.answers_congr (.ofSource hall token?) (by cases view <;> rfl) calls

/-- An iterator that has given an item has taken the bytes up to the end of the record of its chunk, and no others. -/
theorem isAfter_of_next {view : View} {all : List (Item × Entry)}
    (hall : view.shown (Course.ofSource s).entries = .ok all) {calls : List Call} {x : Item}
    (h : ((view.ofSource s (some .fresh)).after calls).next.1 = some x) :
    ∃ y, all[calls.count .next]? = some (x, y) ∧
      ((view.ofSource s (some .fresh)).after calls).next.2.pull.reader.source.IsAfter y.endOffset s := by
  have hphase := ((Refines.ofSource hall (some .fresh)).after (by cases view <;> rfl) calls).next
  rw [Phase.start_fresh] at hphase
  rw [hphase.1] at h
  obtain ⟨-, y, hy, hgoing⟩ := Phase.of_next_eq_some h
  rw [hgoing] at hphase
  obtain ⟨entries, hahead⟩ := hphase.2.ahead
  exact ⟨y, hy, hahead.reader.isAfter⟩

/-- A reader that has given a chunk has taken the bytes up to the end of its record, and no others. -/
theorem isAfter_of_nthNext {n : Nat} {c : Chunk} (h : nthNext (ofSource s) n = some (.ok c)) :
    ∃ y, (Course.ofSource s).entries[n]? = some y ∧ y.chunk = c ∧
      ((ofSource s).asked (n + 1)).source.IsAfter y.endOffset s := by
  rw [(Ahead.ofSource s).nthNext, Course.items, List.getElem?_append] at h
  split at h
  · rw [List.getElem?_map, Option.map_eq_some_iff] at h
    obtain ⟨y, hy, hc⟩ := h
    exact ⟨y, hy, Except.ok.inj hc, ((Ahead.ofSource s).asked hy).isAfter⟩
  · -- behind the chunks there is at most an error
    obtain ⟨e, -, he⟩ := List.mem_map.mp (List.mem_of_getElem? h)
    simp at he

/-- Reading from a source does not depend on how it delivers its bytes, and never runs ahead.

A source that does not fail gives a record, and is then left behind it, exactly if the record is decoded at the front of
its bytes and is not too long; it gives none exactly if there are no bytes. A reader delivers the same from it as from any
other source of its bytes, and iterators answer the same. Whenever a reader or an iterator has given something of a chunk,
the source has delivered the bytes up to the end of the record of the chunk. If the source fails, the chunks delivered are
those of the whole stream whose records end where it fails or before. -/
structure OnAnySchedule (s : Source) : Prop where
  reads_iff_decodes : ∀ bytes, s.Holds bytes → ∀ r k, (readFrom s).1 = .ok (some r) ∧ (readFrom s).2.IsAfter k s ↔
    decode bytes = .ok (r, k) ∧ Bytes.toNat (bytes.take lengthSize) ≤ maxRecordSize
  reads_none_iff : ∀ bytes, s.Holds bytes → ((readFrom s).1 = .ok none ↔ bytes = [])
  nthNext_eq : ∀ (bytes : Bytes) (u : Source), s.Holds bytes → u.Holds bytes →
    ∀ n, nthNext (ofSource s) n = nthNext (ofSource u) n
  answers_eq : ∀ (bytes : Bytes) (u : Source), s.Holds bytes → u.Holds bytes →
    ∀ (view : View) (token? : Option CancelToken) (calls : List Call),
      (view.ofSource s token?).answers calls = (view.ofSource u token?).answers calls
  reader_pulled : ∀ (n : Nat) (c : Chunk), nthNext (ofSource s) n = some (.ok c) →
    ∃ y, (Course.ofSource s).entries[n]? = some y ∧ y.chunk = c ∧
      (∃ later, (reads s).1 = y.before ++ y.record :: later) ∧
      ((ofSource s).asked (n + 1)).source.IsAfter y.endOffset s
  iterator_pulled : ∀ view : View, ∃ all, view.shown (Course.ofSource s).entries = .ok all ∧
    ∀ (calls : List Call) (x : Item), ((view.ofSource s (some .fresh)).after calls).next.1 = some x →
      ∃ y, all[calls.count .next]? = some (x, y) ∧
        ((view.ofSource s (some .fresh)).after calls).next.2.pull.reader.source.IsAfter y.endOffset s
  before_failure : ∀ (u : Source) (failure : SourceFailure), s.failure? = some failure → u.Holds s.rest →
    (∀ n, nthNext (ofSource s) n = (Course.ofSource s).items[n]?) ∧
    (∀ n, nthNext (ofSource u) n = (Course.ofSource u).items[n]?) ∧
    (Course.ofSource s).entries =
      (Course.ofSource u).entries.filter fun y => s.position + y.endOffset ≤ failure.position

/-- It is so for every source. -/
theorem reads_on_any_schedule (s : Source) : OnAnySchedule s where
  reads_iff_decodes _ hs _ _ := readFrom_iff_decode hs
  reads_none_iff _ hs := readFrom_none_iff hs
  nthNext_eq _ u hs hu n := by
    rw [(Ahead.ofSource s).nthNext, (Ahead.ofSource u).nthNext, Course.ofSource_congr hs hu]
  answers_eq _ _ hs hu := answers_ofSource_congr hs hu
  reader_pulled n c h := by
    obtain ⟨y, hy, hc, hafter⟩ := isAfter_of_nthNext h
    exact ⟨y, hy, hc, (Course.of_mem_ofSource (List.mem_of_getElem? hy)).1, hafter⟩
  iterator_pulled view := by
    obtain ⟨all, hall⟩ := view.exists_shown fun y hy => Chunk.inStep_of_ofBody (Course.of_mem_ofSource hy).2.2
    exact ⟨all, hall, fun calls x h => isAfter_of_next hall h⟩
  before_failure u _ hs hu :=
    ⟨(Ahead.ofSource s).nthNext, (Ahead.ofSource u).nthNext, Course.entries_of_failure hs hu⟩

/-- A source with the record of one chunk, three bytes at a call after as many interruptions as there have been calls,
and one that fails in the record. -/
theorem reads_on_any_schedule_one_chunk :
    ∃ r c, let s : Source := { Source.inPieces 3 r.encode with schedule := ⟨fun n => n, fun _ => 2⟩ }
      (readFrom s).1 = .ok (some r) ∧ (readFrom s).2.IsAfter r.encode.length s ∧
      nthNext (ofSource s) 0 = some (.ok c) ∧ ((ofSource s).asked 1).source.IsAfter r.encode.length s ∧
      (Course.ofSource { s with failure? := some ⟨10, "unplugged"⟩ }).entries = [] := by
  let r : Record := .ofChunk [20, 0, 0, 0, 120, 156, 1, 20, 0, 235, 255, 12, 0, 0, 0, 0, 0, 0, 0, 0, 0, 0, 0, 0, 0, 0,
    0, 0, 0, 0, 0, 1, 4, 0, 13]
  let c : Chunk := ⟨[], none, [], 0⟩
  refine ⟨r, c, ?_⟩
  intro s
  have hs : s.Holds r.encode := ⟨rfl, rfl⟩
  have hu : (Source.ofBytes r.encode).Holds r.encode := ⟨rfl, rfl⟩
  have hsize : ∀ r' ∈ [r], r'.frame.length ≤ maxRecordSize := List.forall_mem_singleton.mpr (by decide)
  have hbytes : [r].flatMap encode ++ [] = r.encode := by simp
  have hfound : decode r.encode = .ok (r, r.encode.length) :=
    decode_eq_ok_iff.mpr ⟨⟨[], (List.append_nil _).symm⟩, by decide, rfl⟩
  have hany := reads_on_any_schedule s
  obtain ⟨hread, hafter⟩ := (hany.reads_iff_decodes r.encode hs r r.encode.length).mpr ⟨hfound, by decide⟩
  have houtcomes : outcomes [] [r] = [.ok c] := by with_unfolding_all rfl
  have hfirst : nthNext (ofSource s) 0 = some (.ok c) := by
    rw [hany.nthNext_eq _ _ hs hu, nthNext_ofSource hsize (.inl rfl) (hbytes ▸ hu), houtcomes]
    rfl
  -- the only record in the stream is that of the chunk
  have hplace (t : Source) (ht : t.Holds r.encode) (y : Entry) (hy : y ∈ (Course.ofSource t).entries) :
      y.endOffset = r.encode.length := by
    obtain ⟨later, hlater⟩ := (Course.of_mem_ofSource hy).1
    rw [(reads_of_records hsize (.inl rfl) (hbytes ▸ ht)).1] at hlater
    cases hbefore : y.before with
    | cons r' before => simp [hbefore] at hlater
    | nil =>
      rw [hbefore] at hlater
      obtain ⟨hrecord, -⟩ := List.cons_eq_cons.mp hlater
      rw [Entry.endOffset, Entry.upTo, hbefore, ← hrecord, List.nil_append, List.flatMap_singleton]
  obtain ⟨y, hy, -, -, hstands⟩ := hany.reader_pulled 0 c hfirst
  refine ⟨hread, hafter, hfirst, hplace s hs y (List.mem_of_getElem? hy) ▸ hstands, ?_⟩
  have hfails := reads_on_any_schedule { s with failure? := some ⟨10, "unplugged"⟩ }
  rw [(hfails.before_failure s ⟨10, "unplugged"⟩ rfl hs).2.2, List.filter_eq_nil_iff]
  intro y hy
  rw [hplace s hs y hy]
  decide

end ChunkReader

end Telemetry

import Telemetry.Proofs.Chunk.Items
import Telemetry.Proofs.Chunk.Phase

/-!
# Iterators keep to the protocol

An iterator over a source, of any kind, is in the phase in which it should be after the calls that have been made
(`StreamIterator.Refines.serve`, `Refines.after`), and so keeps to the protocol of iterators
(`StreamIterator.keeps_protocol`).

## Shape of the proof

The three kinds of iterators share their pulls. A pull stands in the middle of the stream (`ChunkPull.Ahead`), where it
follows the course of the stream, or it delivers nothing any more (`ChunkPull.Ended`). Iterators over chunks and
matrices take one item from each chunk that is pulled. An iterator over samples stands in a chunk besides
(`SampleIterator.Stands`), and what is left of the chunk comes before the items of the chunks to be pulled.
-/

namespace Telemetry

open Record ChunkReader StreamIterator

/-- An iterator over a source from which nothing has been read. -/
def View.ofSource (view : View) (s : Source) (token? : Option CancelToken) : StreamIterator :=
  match view with
  | .chunks => .chunks (.ofSource s token?)
  | .samples shape => .samples (.ofSource s token? shape)
  | .matrices => .matrices (.ofSource s token?)

/-! ## Pulls -/

namespace ChunkPull

/-- A pull in the middle of a stream: its reader stands there, the signal has not been given and nothing has gone
wrong. -/
structure Ahead (s : Source) (p : ChunkPull) (before : List Record) (k : Course) : Prop where
  reader : p.reader.Ahead s before k
  isCancelled_eq : p.isCancelled = false
  error_eq : p.error? = none
  metadata_eq : p.metadata? = lastMetadata? before

/-- A pull that delivers nothing any more. -/
structure Ended (p : ChunkPull) (before : List Record) (e? : Option Error) (isReleased : Bool) : Prop where
  isReleased_eq : p.reader.isReleased = isReleased
  ends : isReleased = true ∨ p.isCancelled = true
  error_eq : p.error? = e?
  metadata_eq : p.metadata? = lastMetadata? before

variable {s : Source} {p : ChunkPull} {before : List Record} {k : Course}

theorem token?_next (p : ChunkPull) : p.next.2.token? = p.token? := by
  rw [next]
  split
  · rfl
  · split <;> rfl

theorem token?_close (p : ChunkPull) : p.close.2.token? = p.token? := by
  rw [close]
  split <;> rfl

/-- A signal that has been given stays. -/
theorem isCancelled_cancel (h : p.isCancelled = true) : p.cancel.isCancelled = true := by
  rw [isCancelled] at h ⊢
  cases htoken : p.token? with
  | none => simp [htoken] at h
  | some token => rw [ChunkPull.cancel, htoken]; rfl

namespace Ahead

/-- After the last chunk there is nothing, and the error that ends the stream is kept. -/
theorem next_of_nil (h : p.Ahead s before k) (hk : k.entries = []) :
    ∃ q, p.next = (none, q) ∧ q.Ended before k.error? true := by
  have hnext := h.reader.next
  have hitem := hnext.item_eq
  have hreleased := hnext.isReleased hk
  rw [ChunkPull.next, h.isCancelled_eq, if_neg (by decide)]
  cases hgiven : p.reader.next with
  | mk given reader =>
    rw [hgiven] at hitem hreleased
    rw [Course.items, hk] at hitem
    cases herror : k.error? with
    | none =>
      rw [herror] at hitem
      obtain rfl : given = none := hitem
      exact ⟨_, rfl, hreleased, .inl rfl, h.error_eq, h.metadata_eq⟩
    | some e =>
      rw [herror] at hitem
      obtain rfl : given = some (.error e) := hitem
      exact ⟨_, rfl, rfl, .inl rfl, rfl, h.metadata_eq⟩

/-- The next chunk of the course is delivered, and its metadata document is told from then on. -/
theorem next_of_cons (h : p.Ahead s before k) {x : Entry} {more : List Entry} (hk : k.entries = x :: more) :
    ∃ q, p.next = (some x.chunk, q) ∧ q.Ahead s x.upTo ⟨more, k.error?⟩ := by
  have hnext := h.reader.next
  have hitem := hnext.item_eq
  have hahead := hnext.ahead x more hk
  have hx : x ∈ k.entries := hk ▸ List.mem_cons_self
  rw [← h.reader.course_eq] at hx
  rw [ChunkPull.next, h.isCancelled_eq, if_neg (by decide)]
  cases hgiven : p.reader.next with
  | mk given reader =>
    rw [hgiven] at hitem hahead
    rw [Course.items, hk] at hitem
    obtain rfl : given = some (.ok x.chunk) := hitem
    refine ⟨_, rfl, hahead, h.isCancelled_eq, h.error_eq, ?_⟩
    have hdocument : x.chunk.metadata? = lastMetadata? x.before :=
      Chunk.metadata?_of_ofBody (outcome?_eq_ok_iff.mp (Course.exists_of_mem_ofRecords hx).1).2
    show x.chunk.metadata?.or p.metadata? = _
    rw [hdocument, h.metadata_eq, Entry.lastMetadata?_upTo (Course.exists_of_mem_ofRecords hx).1]
    -- without a document before the chunk there was none before the chunks delivered earlier
    cases hlast : lastMetadata? x.before with
    | none => exact lastMetadata?_eq_none_of_isPrefix (Course.isPrefix_of_mem_ofRecords hx) hlast
    | some d => rfl

theorem close (h : p.Ahead s before k) : ∃ q, p.close = (.ok (), q) ∧ q.Ended before none true := by
  rw [ChunkPull.close, h.error_eq]
  exact ⟨_, rfl, rfl, .inl rfl, h.error_eq, h.metadata_eq⟩

theorem cancel (h : p.Ahead s before k) (htoken : p.token?.isSome = true) : p.cancel.Ended before none false := by
  refine ⟨h.reader.isOpen, .inr ?_, h.error_eq, h.metadata_eq⟩
  obtain ⟨token, htoken⟩ := Option.isSome_iff_exists.mp htoken
  rw [isCancelled, ChunkPull.cancel, htoken]
  rfl

end Ahead

namespace Ended

variable {e? : Option Error} {isReleased : Bool}

theorem next (h : p.Ended before e? isReleased) : ∃ q, p.next = (none, q) ∧ q.Ended before e? true := by
  rw [ChunkPull.next]
  split
  · exact ⟨_, rfl, rfl, .inl rfl, h.error_eq, h.metadata_eq⟩
  · next hcancelled =>
    have hreleased : p.reader.isReleased = true := h.isReleased_eq.trans (h.ends.resolve_right hcancelled)
    rw [next_of_isReleased hreleased]
    exact ⟨_, rfl, hreleased, .inl rfl, h.error_eq, h.metadata_eq⟩

theorem release (h : p.Ended before e? isReleased) : p.release.Ended before e? true :=
  ⟨rfl, .inl rfl, h.error_eq, h.metadata_eq⟩

theorem close (h : p.Ended before e? isReleased) : ∃ q, p.close = (report e?, q) ∧ q.Ended before none true := by
  rw [ChunkPull.close, h.error_eq]
  cases e? with
  | none => exact ⟨_, rfl, rfl, .inl rfl, h.error_eq, h.metadata_eq⟩
  | some e => exact ⟨_, rfl, rfl, .inl rfl, rfl, h.metadata_eq⟩

theorem cancel (h : p.Ended before e? isReleased) : p.cancel.Ended before e? isReleased :=
  ⟨h.isReleased_eq, h.ends.imp_right isCancelled_cancel, h.error_eq, h.metadata_eq⟩

end Ended

end ChunkPull

/-! ## Phases of a pull and of a sample iterator -/

/-- A pull is in a phase of an iterator over chunks that takes items from it. -/
def ChunkPull.Refines (s : Source) (view : View) (p : ChunkPull) : Phase → Prop
  | .going upTo rest e? => ∃ entries, p.Ahead s upTo ⟨entries, e?⟩ ∧ view.shown entries = .ok rest
  | .ended upTo e? isReleased => p.Ended upTo e? isReleased

namespace ChunkPull.Refines

variable {s : Source} {view : View} {p : ChunkPull} {ph : Phase}

theorem close (h : p.Refines s view ph) : p.close.1 = ph.close.1 ∧ p.close.2.Refines s view ph.close.2 := by
  cases ph with
  | going upTo rest e? =>
    obtain ⟨entries, hahead, -⟩ := h
    obtain ⟨q, hq, hended⟩ := hahead.close
    rw [hq]
    exact ⟨rfl, hended⟩
  | ended upTo e? isReleased =>
    obtain ⟨q, hq, hended⟩ := ChunkPull.Ended.close h
    rw [hq]
    exact ⟨rfl, hended⟩

theorem cancel (h : p.Refines s view ph) (htoken : p.token?.isSome = true) :
    p.cancel.Refines s view ph.cancel := by
  cases ph with
  | going upTo rest e? =>
    obtain ⟨entries, hahead, -⟩ := h
    exact hahead.cancel htoken
  | ended upTo e? isReleased => exact ChunkPull.Ended.cancel h

/-- Where each chunk is one item, a chunk comes for each item. -/
theorem next {f : Chunk → Item} (hitems : ∀ c, view.items c = .ok [f c]) (h : p.Refines s view ph) :
    p.next.1.map f = ph.next.1 ∧ p.next.2.Refines s view ph.next.2 := by
  cases ph with
  | going upTo rest e? =>
    obtain ⟨entries, hahead, hshown⟩ := h
    cases entries with
    | nil =>
      obtain rfl := Except.ok.inj hshown
      obtain ⟨q, hq, hended⟩ := hahead.next_of_nil rfl
      rw [hq]
      exact ⟨rfl, hended⟩
    | cons x more =>
      obtain ⟨first, rest', hfirst, hrest, rfl⟩ := View.shown_cons_eq_ok_iff.mp hshown
      rw [hitems] at hfirst
      obtain rfl := Except.ok.inj hfirst
      obtain ⟨q, hq, hahead'⟩ := hahead.next_of_cons rfl
      rw [hq]
      exact ⟨rfl, more, hahead', hrest⟩
  | ended upTo e? isReleased =>
    obtain ⟨q, hq, hended⟩ := ChunkPull.Ended.next h
    rw [hq]
    exact ⟨rfl, hended⟩

end ChunkPull.Refines

namespace SampleIterator

/-- What is left of the chunk in which an iterator stands: nothing, or the samples from its position on. -/
inductive Stands (it : SampleIterator) (upTo : List Record) : List (Item × Entry) → Prop
  | between (h : it.samplesLeft = 0) : Stands it upTo []
  | inside {x : Entry} {docs : List Document} (hcurrent : it.current? = some x.chunk) (hupTo : x.upTo = upTo)
      (hdocs : x.chunk.samples it.shape = .ok docs) :
      Stands it upTo ((docs.drop it.position).map fun d => (.document d, x))

/-- An iterator over samples is in a phase. -/
def Refines (s : Source) (it : SampleIterator) : Phase → Prop
  | .going upTo rest e? => ∃ entries left more, it.pull.Ahead s upTo ⟨entries, e?⟩ ∧ it.Stands upTo left ∧
      (View.samples it.shape).shown entries = .ok more ∧ rest = left ++ more
  | .ended upTo e? isReleased =>
    it.pull.Ended upTo e? isReleased ∧ (it.pull.isCancelled = true ∨ it.samplesLeft = 0)

variable {s : Source} {it : SampleIterator} {upTo : List Record} {ph : Phase}

theorem token?_next (it : SampleIterator) : it.next.2.pull.token? = it.pull.token? := by
  have hyield (jt : SampleIterator) (c : Chunk) (n : Nat) :
      (jt.yieldFrom c n).2.pull.token? = jt.pull.token? := by
    rw [yieldFrom]
    split <;> rfl
  have hchunk : it.nextChunk.2.pull.token? = it.pull.token? := by
    have hpull := it.pull.token?_next
    rw [nextChunk]
    cases hnext : it.pull.next with
    | mk c? pull =>
      rw [hnext] at hpull
      cases c? with
      | none => exact hpull
      | some c => exact (hyield _ c 0).trans hpull
  rw [next]
  split
  · rfl
  · split
    · split
      · exact hyield _ _ _
      · exact hchunk
    · exact hchunk

/-- An iterator whose chunk is used up takes the next one. -/
theorem next_of_samplesLeft_eq_zero (hopen : it.pull.isCancelled = false) (h : it.samplesLeft = 0) :
    it.next = it.nextChunk := by
  rw [next, hopen, if_neg (by decide)]
  split
  · next c hcurrent =>
    have hused : c.length - it.position = 0 := by simpa [samplesLeft, hcurrent] using h
    exact if_neg (by omega)
  · rfl

theorem Stands.samplesLeft_eq_zero (h : it.Stands upTo []) : it.samplesLeft = 0 := by
  generalize hleft : ([] : List (Item × Entry)) = left at h
  cases h with
  | between h => exact h
  | inside hcurrent _ hdocs =>
    have hdrop := List.drop_eq_nil_iff.mp (List.map_eq_nil_iff.mp hleft.symm)
    rw [(Chunk.samples_eq_ok_iff.mp hdocs).1] at hdrop
    rw [samplesLeft, hcurrent]
    exact Nat.sub_eq_zero_of_le hdrop

/-- A sample that can be restored is given, and the iterator then stands in its chunk behind it. -/
theorem yieldFrom_eq (it : SampleIterator) {x : Entry} {docs : List Document}
    (hdocs : x.chunk.samples it.shape = .ok docs) {position : Nat} (hlt : position < docs.length) :
    it.yieldFrom x.chunk position =
      (some docs[position], { it with current? := some x.chunk, position := position + 1 }) := by
  rw [yieldFrom, (Chunk.samples_eq_ok_iff.mp hdocs).2 position hlt]

/-- An iterator in a chunk gives the sample at its position. -/
theorem Stands.next {left : List (Item × Entry)} {i : Item} {y : Entry} (h : it.Stands upTo ((i, y) :: left))
    (hopen : it.pull.isCancelled = false) :
    ∃ d, i = .document d ∧ y.upTo = upTo ∧ it.next = (some d, { it with position := it.position + 1 }) ∧
      Stands { it with position := it.position + 1 } upTo left := by
  generalize hitems : (i, y) :: left = items at h
  cases h with
  | between _ => simp at hitems
  | @inside x docs hcurrent hupTo hdocs =>
    have hlt : it.position < docs.length := by
      by_contra hle
      simp [List.drop_eq_nil_of_le (Nat.le_of_not_lt hle)] at hitems
    rw [List.drop_eq_getElem_cons hlt, List.map_cons] at hitems
    obtain ⟨⟨rfl, rfl⟩, rfl⟩ := hitems
    refine ⟨_, rfl, hupTo, ?_, .inside hcurrent hupTo hdocs⟩
    rw [SampleIterator.next, hopen, if_neg (by decide)]
    simp only [hcurrent]
    rw [if_pos ((Chunk.samples_eq_ok_iff.mp hdocs).1 ▸ hlt), yieldFrom_eq it hdocs hlt]

namespace Refines

theorem next (h : it.Refines s ph) :
    it.next.1.map Item.document = ph.next.1 ∧ it.next.2.Refines s ph.next.2 := by
  cases ph with
  | going upTo rest e? =>
    obtain ⟨entries, left, more, hahead, hstands, hshown, rfl⟩ := h
    have hopen := hahead.isCancelled_eq
    cases left with
    | cons head left =>
      obtain ⟨i, y⟩ := head
      obtain ⟨d, rfl, rfl, hnext, hstands'⟩ := hstands.next hopen
      rw [hnext]
      exact ⟨rfl, entries, left, more, hahead, hstands', hshown, rfl⟩
    | nil =>
      have hused := hstands.samplesLeft_eq_zero
      rw [next_of_samplesLeft_eq_zero hopen hused, nextChunk]
      cases entries with
      | nil =>
        obtain rfl := Except.ok.inj hshown
        obtain ⟨q, hq, hended⟩ := hahead.next_of_nil rfl
        rw [hq]
        exact ⟨rfl, hended, .inr hused⟩
      | cons x more =>
        obtain ⟨first, rest, hfirst, hrest, rfl⟩ := View.shown_cons_eq_ok_iff.mp hshown
        obtain ⟨q, hq, hahead'⟩ := hahead.next_of_cons rfl
        obtain ⟨docs, hdocs, rfl⟩ := View.items_samples_eq_ok_iff.mp hfirst
        cases docs with
        | nil => exact absurd rfl (View.items_ne_nil hfirst)
        | cons d docs =>
          rw [hq]
          simp only [yieldFrom_eq { it with pull := q } hdocs (Nat.zero_lt_succ _)]
          exact ⟨rfl, more, _, rest, hahead', .inside rfl rfl hdocs, hrest,
            by rw [List.map_map]; rfl⟩
  | ended upTo e? isReleased =>
    obtain ⟨hended, hends⟩ := h
    by_cases hcancelled : it.pull.isCancelled = true
    · rw [SampleIterator.next, if_pos hcancelled]
      exact ⟨rfl, hended.release, .inr rfl⟩
    · have hused := hends.resolve_left hcancelled
      obtain ⟨q, hq, hended'⟩ := hended.next
      rw [next_of_samplesLeft_eq_zero (Bool.not_eq_true _ ▸ hcancelled) hused, nextChunk, hq]
      exact ⟨rfl, hended', .inr hused⟩

theorem close (h : it.Refines s ph) : it.close.1 = ph.close.1 ∧ it.close.2.Refines s ph.close.2 := by
  cases ph with
  | going upTo rest e? =>
    obtain ⟨entries, left, more, hahead, -⟩ := h
    obtain ⟨q, hq, hended⟩ := hahead.close
    rw [SampleIterator.close, hq]
    exact ⟨rfl, hended, .inr rfl⟩
  | ended upTo e? isReleased =>
    obtain ⟨q, hq, hended⟩ := h.1.close
    rw [SampleIterator.close, hq]
    exact ⟨rfl, hended, .inr rfl⟩

theorem cancel (h : it.Refines s ph) (htoken : it.pull.token?.isSome = true) :
    Refines s { it with pull := it.pull.cancel } ph.cancel := by
  cases ph with
  | going upTo rest e? =>
    obtain ⟨entries, left, more, hahead, -⟩ := h
    have hended := hahead.cancel htoken
    exact ⟨hended, .inl (hended.ends.resolve_left (by decide))⟩
  | ended upTo e? isReleased =>
    obtain ⟨hended, hends⟩ := h
    exact ⟨hended.cancel, hends.imp_left ChunkPull.isCancelled_cancel⟩

end Refines

end SampleIterator

/-! ## Iterators of any kind -/

namespace StreamIterator

/-- The answer to a call, and the iterator after it. -/
def serve (it : StreamIterator) : Call → Answer × StreamIterator
  | .next => (.item it.next.1, it.next.2)
  | .close => (.closed it.close.1, it.close.2)
  | .metadata => (.metadata it.metadata?, it)
  | .cancel => (.done, it.cancel)

/-- The iterator after calls, one after the other. -/
def after (it : StreamIterator) (calls : List Call) : StreamIterator :=
  calls.foldl (fun it c => (it.serve c).2) it

/-- The answers to calls, one after the other. -/
def answers (it : StreamIterator) : List Call → List Answer
  | [] => []
  | c :: calls => (it.serve c).1 :: answers (it.serve c).2 calls

/-- A signal stays attached. -/
theorem isSome_token?_serve (it : StreamIterator) (c : Call) :
    (it.serve c).2.pull.token?.isSome = it.pull.token?.isSome := by
  cases c with
  | next =>
    match it with
    | .chunks p | .matrices p => exact congrArg Option.isSome p.token?_next
    | .samples it => exact congrArg Option.isSome it.token?_next
  | close =>
    match it with
    | .chunks p | .matrices p => exact congrArg Option.isSome p.token?_close
    | .samples it => exact congrArg Option.isSome it.pull.token?_close
  | metadata => rfl
  | cancel =>
    match it with
    | .chunks p | .matrices p => exact Option.isSome_map
    | .samples it => exact Option.isSome_map

/-- Whether the source has been released. -/
def isReleased (it : StreamIterator) : Bool :=
  it.pull.reader.isReleased

/-- An iterator over a source is in a phase. -/
def Refines (s : Source) (it : StreamIterator) (ph : Phase) : Prop :=
  match it with
  | .chunks p => p.Refines s .chunks ph
  | .samples it => it.Refines s ph
  | .matrices p => p.Refines s .matrices ph

namespace Refines

variable {s : Source} {view : View} {it : StreamIterator} {ph : Phase}

/-- At the beginning all items of the stream are still to come, unless the signal has already been given. -/
theorem ofSource {all : List (Item × Entry)} (h : view.shown (Course.ofSource s).entries = .ok all)
    (token? : Option CancelToken) :
    (view.ofSource s token?).Refines s (.start token? all (Course.ofSource s).error?) := by
  have hsignal : (ChunkPull.ofSource s token?).isCancelled = token?.any CancelToken.isCancelled := by
    cases token? <;> rfl
  by_cases hcancelled : token?.any CancelToken.isCancelled = true
  · have hstart : Phase.start token? all (Course.ofSource s).error? = .ended [] none false := if_pos hcancelled
    have hended : (ChunkPull.ofSource s token?).Ended [] none false :=
      ⟨rfl, .inr (hsignal.trans hcancelled), rfl, rfl⟩
    rw [hstart]
    cases view with
    | chunks | matrices => exact hended
    | samples shape => exact ⟨hended, .inl (hsignal.trans hcancelled)⟩
  · have hstart : Phase.start token? all (Course.ofSource s).error? = .going [] all (Course.ofSource s).error? :=
      if_neg hcancelled
    have hahead : (ChunkPull.ofSource s token?).Ahead s [] (.ofSource s) :=
      ⟨.ofSource s, hsignal.trans (Bool.not_eq_true _ ▸ hcancelled), rfl, rfl⟩
    rw [hstart]
    cases view with
    | chunks | matrices => exact ⟨_, hahead, h⟩
    | samples shape => exact ⟨_, [], all, hahead, .between rfl, h, rfl⟩

theorem next (h : it.Refines s ph) : it.next.1 = ph.next.1 ∧ it.next.2.Refines s ph.next.2 :=
  match it with
  | .chunks _ | .matrices _ => ChunkPull.Refines.next (fun _ => rfl) h
  | .samples _ => SampleIterator.Refines.next h

theorem close (h : it.Refines s ph) : it.close.1 = ph.close.1 ∧ it.close.2.Refines s ph.close.2 :=
  match it with
  | .chunks _ | .matrices _ => ChunkPull.Refines.close h
  | .samples _ => SampleIterator.Refines.close h

/-- The signal ends an iterator that heeds one. -/
theorem cancel (h : it.Refines s ph) (htoken : it.pull.token?.isSome = true) : it.cancel.Refines s ph.cancel :=
  match it with
  | .chunks _ | .matrices _ => ChunkPull.Refines.cancel h htoken
  | .samples _ => SampleIterator.Refines.cancel h htoken

/-- While items may come, the source stands at the end of the record of the last chunk. -/
theorem ahead {upTo : List Record} {rest : List (Item × Entry)} {e? : Option Error}
    (h : it.Refines s (.going upTo rest e?)) : ∃ entries, it.pull.Ahead s upTo ⟨entries, e?⟩ := by
  match it with
  | .chunks _ | .matrices _ =>
    obtain ⟨entries, hahead, -⟩ := h
    exact ⟨entries, hahead⟩
  | .samples _ =>
    obtain ⟨entries, -, -, hahead, -⟩ := h
    exact ⟨entries, hahead⟩

theorem ended {upTo : List Record} {e? : Option Error} {isReleased : Bool}
    (h : it.Refines s (.ended upTo e? isReleased)) : it.pull.Ended upTo e? isReleased :=
  match it with
  | .chunks _ | .matrices _ => h
  | .samples _ => h.1

theorem metadata_eq (h : it.Refines s ph) : it.metadata? = ph.metadata? := by
  cases ph with
  | going upTo rest e? => exact h.ahead.choose_spec.metadata_eq
  | ended upTo e? isReleased => exact h.ended.metadata_eq

theorem isReleased_eq (h : it.Refines s ph) : it.isReleased = ph.isReleased := by
  cases ph with
  | going upTo rest e? => exact h.ahead.choose_spec.reader.isOpen
  | ended upTo e? isReleased => exact h.ended.isReleased_eq

/-- A call is answered as it should be, and leaves the iterator in the phase in which it should be. -/
theorem serve (h : it.Refines s ph) (htoken : it.pull.token?.isSome = true) (c : Call) :
    (it.serve c).1 = (ph.serve c).1 ∧ (it.serve c).2.Refines s (ph.serve c).2 := by
  cases c with
  | next => exact ⟨congrArg _ h.next.1, h.next.2⟩
  | close => exact ⟨congrArg _ h.close.1, h.close.2⟩
  | metadata => exact ⟨congrArg _ h.metadata_eq, h⟩
  | cancel => exact ⟨rfl, h.cancel htoken⟩

theorem after (h : it.Refines s ph) (htoken : it.pull.token?.isSome = true) (calls : List Call) :
    (it.after calls).Refines s (ph.after calls) := by
  induction calls generalizing it ph with
  | nil => exact h
  | cons c calls ih => exact ih (h.serve htoken c).2 ((isSome_token?_serve it c).trans htoken)

theorem answers_eq (h : it.Refines s ph) (htoken : it.pull.token?.isSome = true) (calls : List Call) :
    it.answers calls = ph.answers calls := by
  induction calls generalizing it ph with
  | nil => rfl
  | cons c calls ih =>
    rw [answers, Phase.answers, (h.serve htoken c).1,
      ih (h.serve htoken c).2 ((isSome_token?_serve it c).trans htoken)]

end Refines

/-! ## The protocol -/

/-- What an iterator that has nothing behind it owes its caller, whatever calls are made: the items of the stream, and
the error after them, if there is one.

The items that come in answer to any calls are the first of all items, one for each call for an item before the first
call to close or the signal; until then there is no item only if all have come. With an item comes the document of the
last metadata record before its chunk. After a call to close or the signal, and after a call that found no item, there
are no items.

Closing reports the error exactly if a call for an item has run into it and no call to close has reported it, so that
it is reported once at most. After a call to close, and after a call that found no item, because of an error or not,
the source has been released, and stays so. -/
structure Keeps (it : StreamIterator) (all : List (Item × Entry)) (error? : Option Error) : Prop where
  yields : ∀ calls, (it.answers calls).filterMap Answer.item? =
    (all.map Prod.fst).take ((calls.takeWhile fun c => !c.isEnding).count .next)
  next_eq : ∀ calls, Undisturbed calls → (it.after calls).next.1 = (all[calls.count .next]?).map Prod.fst
  metadata_eq : ∀ calls x, (it.after calls).next.1 = some x →
    ∃ y, all[calls.count .next]? = some (x, y) ∧ (it.after calls).next.2.metadata? = lastMetadata? y.before
  next_of_disturbed : ∀ calls, ¬ Undisturbed calls → (it.after calls).next.1 = none
  next_of_none : ∀ calls more, (it.after calls).next.1 = none → (it.after (calls ++ .next :: more)).next.1 = none
  close_eq_error_iff : ∀ calls e, (it.after calls).close.1 = .error e ↔
    error? = some e ∧
    (∃ first later, calls = first ++ .next :: later ∧ Undisturbed first ∧ (it.after first).next.1 = none) ∧
    ∀ first later, calls = first ++ .close :: later → (it.after first).close.1 = .ok ()
  reports_le : ∀ calls, (it.answers calls).countP Answer.isReport ≤ 1
  isReleased_of_close : ∀ calls more, (it.after (calls ++ .close :: more)).isReleased = true
  isReleased_of_none : ∀ calls more, (it.after calls).next.1 = none →
    (it.after (calls ++ .next :: more)).isReleased = true

/-- An iterator that is in the phase in which all items are to come keeps to the protocol. -/
theorem Refines.keeps {s : Source} {it : StreamIterator} {all : List (Item × Entry)} {error? : Option Error}
    (h : it.Refines s (.going [] all error?)) (htoken : it.pull.token?.isSome = true)
    (hall : ∀ p ∈ all, lastMetadata? p.2.upTo = lastMetadata? p.2.before) : it.Keeps all error? := by
  have hafter (calls : List Call) := h.after htoken calls
  exact {
    yields := fun calls => by rw [h.answers_eq htoken, Phase.filterMap_item?_answers]
    next_eq := fun calls hcalls => by rw [(hafter calls).next.1, Phase.next_of_undisturbed hcalls]
    metadata_eq := fun calls x hx => by
      rw [(hafter calls).next.1] at hx
      obtain ⟨-, y, hy, hphase⟩ := Phase.of_next_eq_some hx
      refine ⟨y, hy, ?_⟩
      rw [(hafter calls).next.2.metadata_eq, hphase]
      exact hall _ (List.mem_of_getElem? hy)
    next_of_disturbed := fun calls hcalls => by
      rw [(hafter calls).next.1, Phase.next_of_not_undisturbed hcalls]
    next_of_none := fun calls more hnone => by
      rw [(hafter calls).next.1] at hnone
      rw [(hafter _).next.1, Phase.after_append]
      exact (Phase.next_of_next_eq_none hnone more).1
    close_eq_error_iff := fun calls e => by
      simp only [(hafter _).close.1, (hafter _).next.1]
      exact Phase.close_eq_error_iff
    reports_le := fun calls => by
      rw [h.answers_eq htoken]
      exact Phase.countP_isReport_le _ calls
    isReleased_of_close := fun calls more => by
      rw [(hafter _).isReleased_eq, Phase.after_append]
      exact Phase.isReleased_of_close _ more
    isReleased_of_none := fun calls more hnone => by
      rw [(hafter calls).next.1] at hnone
      rw [(hafter _).isReleased_eq, Phase.after_append]
      exact (Phase.next_of_next_eq_none hnone more).2 }

/-- Iterators over a source keep to the protocol, whatever they are over and whatever becomes of the source. The items
are those of the chunks that a reader of the source delivers, and all of them can be restored. Each chunk goes with the
records before it in the stream, and has the document of the last metadata record among them. -/
theorem keeps_protocol (s : Source) (view : View) :
    (∀ n, nthNext (.ofSource s) n = (Course.ofSource s).items[n]?) ∧
    (∀ y ∈ (Course.ofSource s).entries, (∃ later, (reads s).1 = y.before ++ y.record :: later) ∧
      y.record.kind = .chunk ∧ Chunk.ofBody (lastMetadata? y.before) y.record.body = .ok y.chunk) ∧
    ∃ all, view.shown (Course.ofSource s).entries = .ok all ∧
      (view.ofSource s (some .fresh)).Keeps all (Course.ofSource s).error? := by
  refine ⟨(Ahead.ofSource s).nthNext, fun y hy => Course.of_mem_ofSource hy, ?_⟩
  obtain ⟨all, hall⟩ := view.exists_shown fun y hy => Chunk.inStep_of_ofBody (Course.of_mem_ofSource hy).2.2
  refine ⟨all, hall, (Refines.ofSource hall (some .fresh)).keeps (by cases view <;> rfl) fun p hp => ?_⟩
  obtain ⟨-, hkind, hbody⟩ := Course.of_mem_ofSource (View.mem_of_mem_shown hall hp)
  exact Entry.lastMetadata?_upTo (outcome?_eq_ok_iff.mpr ⟨hkind, hbody⟩)

end StreamIterator

end Telemetry

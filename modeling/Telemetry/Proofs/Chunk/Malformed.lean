import Telemetry.Proofs.Chunk.Schedule

/-!
# Errors on malformed streams

A stream that was damaged should be reported as such: whatever is wrong with a frame (`Record.isCorruption_of_front`) or
with the body of a chunk (`Chunk.isCorruption_of_ofBody`), the error says that the stream is corrupt. One case stands
apart. The document of a metadata record is decoded by itself, and a body that cannot be read is reported as a matter
of encoding, although the same fault in the reference sample of a chunk is corruption.

So the errors on a source that does not fail are corruption, unless the first record that does not decode is a metadata
record with such a body (`Source.SpoiltBy`); then the error is that of its body
(`StreamIterator.isCorruption_unless_spoilt`).
-/

namespace Telemetry

open Record ChunkReader StreamIterator

/-! ## What can be wrong with a record -/

namespace Record

theorem isCorruption_of_ofFrame {frame : Bytes} {e : Error} (h : ofFrame frame = .error e) :
    e.isCorruption = true := by
  rw [ofFrame] at h
  split at h
  · exact Except.error.inj h ▸ rfl
  · dsimp only at h
    split at h
    · exact Except.error.inj h ▸ rfl
    · split at h
      · exact Except.error.inj h ▸ rfl
      · split at h
        · simp at h
        · exact Except.error.inj h ▸ rfl

/-- Where no record stands, the stream is corrupt or has ended. -/
theorem isCorruption_of_front {bytes : Bytes} {e : Error} (h : (front bytes).1 = .error e) :
    e.isCorruption = true := by
  rw [front] at h
  split at h
  · dsimp only at h
    split at h
    · simp at h
    · exact Except.error.inj h ▸ rfl
  · dsimp only at h
    split at h
    · exact Except.error.inj h ▸ rfl
    · split at h
      · exact Except.error.inj h ▸ rfl
      · next frame rest _ =>
        cases hframe : ofFrame frame with
        | ok r => simp [hframe, Except.map] at h
        | error e' =>
          rw [hframe] at h
          exact Except.error.inj h ▸ isCorruption_of_ofFrame hframe

/-- What ends the records of a source that does not fail is corruption. -/
theorem isCorruption_of_reads {s : Source} {bytes : Bytes} (hs : s.Holds bytes) {e : Error}
    (h : (reads s).2 = some e) : e.isCorruption = true := by
  obtain ⟨rs, t, rfl, hsize, hend⟩ := exists_records bytes
  exact isCorruption_of_front (((reads_of_records hsize hend hs).2 e).mp h)

end Record

theorem Payload.isCorruption_of_decompress {bytes : Bytes} {e : Error} (h : decompress bytes = .error e) :
    e.isCorruption = true := by
  rw [decompress] at h
  split at h
  · exact Except.error.inj h ▸ rfl
  · split at h
    · exact Except.error.inj h ▸ rfl
    · dsimp only at h
      split at h <;> split at h
      · exact Except.error.inj h ▸ rfl
      · exact Except.error.inj h ▸ rfl
      · simp at h
      · exact Except.error.inj h ▸ rfl

namespace Chunk

theorem isCorruption_of_ofPayload {metadata? : Option Document} {payload : Bytes} {e : Error}
    (h : ofPayload metadata? payload = .error e) : e.isCorruption = true := by
  rw [ofPayload] at h
  split at h
  · exact Except.error.inj h ▸ rfl
  · split at h
    · exact Except.error.inj h ▸ rfl
    · dsimp only at h
      split at h
      · exact Except.error.inj h ▸ rfl
      · split at h
        · exact Except.error.inj h ▸ rfl
        · simp at h

/-- Whatever is wrong with the body of a chunk, also with its reference sample, the stream is corrupt. -/
theorem isCorruption_of_ofBody {metadata? : Option Document} {body : Bytes} {e : Error}
    (h : ofBody metadata? body = .error e) : e.isCorruption = true := by
  rw [ofBody] at h
  split at h
  · exact isCorruption_of_ofPayload h
  · next e' hinflate =>
    obtain rfl := Except.error.inj h
    exact Payload.isCorruption_of_decompress hinflate

end Chunk

/-! ## Spoilt documents -/

/-- What is wrong with the document of a metadata record, if it is framed as it should be and cannot be read. -/
def Record.spoilt? (r : Record) : Option EncodingFault :=
  match r.kind with
  | .chunk => none
  | .metadata =>
    match Document.decode r.body with
    | .error (.encoding fault) => some fault
    | .error (.format _) => none
    | .ok _ => none

/-- A spoilt document is reported as it is. -/
theorem Record.outcome?_of_spoilt {r : Record} {fault : EncodingFault} (h : r.spoilt? = some fault)
    (before : List Record) : outcome? before r = some (.error (.serialization fault)) := by
  rw [spoilt?] at h
  split at h
  · simp at h
  · next hkind =>
    split at h <;> simp at h
    next hbody =>
      rw [outcome?, hkind]
      simp only [hbody, DocumentFault.toError, h]

/-- A record that does not decode is corrupt, unless it is a spoilt document. -/
theorem Record.isCorruption_of_outcome? {before : List Record} {r : Record} {e : Error}
    (h : outcome? before r = some (.error e)) :
    e.isCorruption = true ∨ ∃ fault, r.spoilt? = some fault ∧ e = .serialization fault := by
  rw [outcome?] at h
  split at h
  · exact .inl (Chunk.isCorruption_of_ofBody (Option.some.inj h))
  · next hkind =>
    split at h
    · simp at h
    · next fault hbody =>
      obtain rfl := Except.error.inj (Option.some.inj h)
      cases fault with
      | format fault => exact .inl rfl
      | encoding fault => exact .inr ⟨fault, by rw [spoilt?, hkind]; simp only [hbody], rfl⟩

/-- The first record of a source that does not decode is a spoilt document. -/
def Source.SpoiltBy (s : Source) (fault : EncodingFault) : Prop :=
  ∃ before r later, (reads s).1 = before ++ r :: later ∧ (∀ e, .error e ∉ outcomes [] before) ∧
    r.spoilt? = some fault

/-! ## The error of a stream -/

namespace ChunkReader.Course

variable {e? : Option Error} {before : List Record}

/-- The error of records is that of the first that does not decode. -/
theorem error?_of_outcome? {passed later : List Record} {r : Record} {e : Error}
    (hpassed : ∀ e, .error e ∉ outcomes before passed) (h : outcome? (before ++ passed) r = some (.error e)) :
    (ofRecords e? before (passed ++ r :: later)).error? = some e := by
  induction passed generalizing before with
  | nil =>
    rw [List.append_nil] at h
    rw [List.nil_append, ofRecords, h]
  | cons r' passed ih =>
    have hmore (e : Error) : .error e ∉ outcomes (before ++ [r']) passed := fun he =>
      hpassed e (List.mem_append_right _ he)
    have hrest := ih hmore (by rwa [List.append_assoc])
    rw [List.cons_append, ofRecords]
    cases houtcome : outcome? before r' with
    | none => exact hrest
    | some result =>
      cases result with
      | ok c => exact hrest
      | error e' => exact absurd (List.mem_append_left _ (by simp [houtcome])) (hpassed e')

/-- The error of records is the one that follows them, or that of the first that does not decode. -/
theorem error?_eq_some {rs : List Record} {e : Error} (h : (ofRecords e? before rs).error? = some e) :
    e? = some e ∨ ∃ passed r later, rs = passed ++ r :: later ∧ (∀ e, .error e ∉ outcomes before passed) ∧
      outcome? (before ++ passed) r = some (.error e) := by
  induction rs generalizing before with
  | nil => exact .inl h
  | cons r rs ih =>
    -- a record that decodes stands before the others
    have hlater (hfine : ∀ e, outcome? before r ≠ some (.error e))
        (h : (ofRecords e? (before ++ [r]) rs).error? = some e) :
        e? = some e ∨ ∃ passed r' later, r :: rs = passed ++ r' :: later ∧
          (∀ e, .error e ∉ outcomes before passed) ∧ outcome? (before ++ passed) r' = some (.error e) := by
      refine (ih h).imp_right fun ⟨passed, r', later, hrs, hpassed, houtcome⟩ => ?_
      refine ⟨r :: passed, r', later, by rw [hrs, List.cons_append], fun e he => ?_, by
        rwa [List.append_assoc] at houtcome⟩
      rcases List.mem_append.mp he with he | he
      · exact hfine e (by simpa using he)
      · exact hpassed e he
    rw [ofRecords] at h
    split at h
    · next houtcome => exact hlater (by simp [houtcome]) h
    · next e' houtcome =>
      obtain rfl := Option.some.inj h
      exact .inr ⟨[], r, rs, rfl, by simp [outcomes], by rwa [List.append_nil]⟩
    · next houtcome => exact hlater (by simp [houtcome]) h

/-- The error on a source that does not fail is corruption, unless it is that of a spoilt document. -/
theorem isCorruption_or_spoilt {s : Source} {bytes : Bytes} (hs : s.Holds bytes) {e : Error}
    (h : (ofSource s).error? = some e) :
    e.isCorruption = true ∨ ∃ fault, s.SpoiltBy fault ∧ e = .serialization fault := by
  rcases error?_eq_some h with hend | ⟨before, r, later, hrecords, hbefore, houtcome⟩
  · exact .inl (isCorruption_of_reads hs hend)
  · refine (isCorruption_of_outcome? houtcome).imp_right fun ⟨fault, hspoilt, he⟩ => ?_
    exact ⟨fault, ⟨before, r, later, hrecords, hbefore, hspoilt⟩, he⟩

/-- The error on a source with a spoilt document before anything else that does not decode is that of the document. -/
theorem error?_of_spoiltBy {s : Source} {fault : EncodingFault} (h : s.SpoiltBy fault) :
    (ofSource s).error? = some (.serialization fault) := by
  obtain ⟨before, r, later, hrecords, hbefore, hspoilt⟩ := h
  rw [ofSource, hrecords]
  exact error?_of_outcome? hbefore (outcome?_of_spoilt hspoilt _)

/-- The only error that a reader delivers is that of the course. -/
theorem error_mem_items_iff {k : Course} {e : Error} : .error e ∈ k.items ↔ k.error? = some e := by
  simp [items]

end ChunkReader.Course

namespace StreamIterator

/-! ## The error that is reported -/

/-- The error that has still to be reported. -/
def Phase.error? : Phase → Option Error
  | .going _ _ error? => error?
  | .ended _ error? _ => error?

/-- An iterator comes by no other error than the one after its items. -/
def Phase.HasNoOther (e? : Option Error) (ph : Phase) : Prop :=
  ∀ e, ph.error? = some e → e? = some e

namespace Phase.HasNoOther

variable {e? : Option Error} {ph : Phase}

theorem start (token? : Option CancelToken) (items : List (Item × Entry)) (e? : Option Error) :
    (Phase.start token? items e?).HasNoOther e? := by
  intro e he
  rw [Phase.start] at he
  split at he
  · simp [Phase.error?] at he
  · exact he

theorem next (h : ph.HasNoOther e?) : ph.next.2.HasNoOther e? :=
  match ph, h with
  | .going _ [] _, h => h
  | .going _ (_ :: _) _, h => h
  | .ended _ _ _, h => h

theorem close (ph : Phase) : ph.close.2.HasNoOther e? := by
  intro e he
  simp [Phase.error?] at he

theorem cancel (h : ph.HasNoOther e?) : ph.cancel.HasNoOther e? :=
  match ph, h with
  | .going _ _ _, _ => fun e he => by simp [Phase.cancel, Phase.error?] at he
  | .ended _ _ _, h => h

theorem of_close (h : ph.HasNoOther e?) {e : Error} (hclose : ph.close.1 = .error e) : e? = some e := by
  cases ph with
  | going upTo rest error? => simp [Phase.close] at hclose
  | ended upTo error? isReleased =>
    refine h e ?_
    cases error? with
    | none => simp [Phase.close, report] at hclose
    | some e' => exact congrArg some (Except.error.inj hclose)

end Phase.HasNoOther

/-- Whatever calls are made, and with or without a signal, an iterator comes by no other error. -/
theorem Refines.exists_after {s : Source} {e? : Option Error} {it : StreamIterator} {ph : Phase}
    (h : it.Refines s ph) (herror : ph.HasNoOther e?) (calls : List Call) :
    ∃ ph', (it.after calls).Refines s ph' ∧ ph'.HasNoOther e? := by
  induction calls generalizing it ph with
  | nil => exact ⟨ph, h, herror⟩
  | cons c calls ih =>
    cases c with
    | next => exact ih h.next.2 herror.next
    | close => exact ih h.close.2 (.close ph)
    | metadata => exact ih h herror
    | cancel =>
      cases htoken : it.pull.token? with
      | some token => exact ih (h.cancel (by rw [htoken]; rfl)) herror.cancel
      | none =>
        -- without a signal nothing happens
        have hsame : it.cancel = it := cancel_of_token?_eq_none htoken
        exact ih (show it.cancel.Refines s ph by rwa [hsame]) herror

/-- An iterator over a source reports no other error than the one a reader of the source delivers. -/
theorem error?_of_close {s : Source} {view : View} {token? : Option CancelToken} {calls : List Call} {e : Error}
    (h : ((view.ofSource s token?).after calls).close.1 = .error e) : (Course.ofSource s).error? = some e := by
  obtain ⟨-, -, all, hall, -⟩ := keeps_protocol s view
  obtain ⟨ph, hrefines, herror⟩ := (Refines.ofSource hall token?).exists_after (.start token? all _) calls
  rw [hrefines.close.1] at h
  exact herror.of_close h

/-- What is wrong with a stream is reported as corruption, with one exception.

Let a source hold some bytes and not fail. Every error that a reader of its chunks delivers, and every error with which
an iterator of any kind closes, whatever calls were made before, is corruption or is that of a spoilt document, which
is no corruption. It is the latter exactly if the first record that does not decode is a metadata record with a body
that cannot be read: then the reader delivers the error of the document, and it is the only one, and an iterator that
has run out of items reports it. -/
theorem isCorruption_unless_spoilt (bytes : Bytes) (s : Source) (hs : s.Holds bytes) :
    (∀ n e, nthNext (ofSource s) n = some (.error e) →
      e.isCorruption = true ∨ ∃ fault, s.SpoiltBy fault ∧ e = .serialization fault) ∧
    (∀ (view : View) (token? : Option CancelToken) (calls : List Call) (e : Error),
      ((view.ofSource s token?).after calls).close.1 = .error e →
      e.isCorruption = true ∨ ∃ fault, s.SpoiltBy fault ∧ e = .serialization fault) ∧
    ∀ fault, s.SpoiltBy fault →
      (Error.serialization fault).isCorruption = false ∧
      (∃ n, nthNext (ofSource s) n = some (.error (.serialization fault))) ∧
      (∀ n e, nthNext (ofSource s) n = some (.error e) → e = .serialization fault) ∧
      ∀ (view : View) (calls : List Call), Undisturbed calls →
        ((view.ofSource s (some .fresh)).after calls).next.1 = none →
        ((view.ofSource s (some .fresh)).after (calls ++ [.next])).close.1 = .error (.serialization fault) := by
  have hdelivered {n : Nat} {e : Error} (h : nthNext (ofSource s) n = some (.error e)) :
      (Course.ofSource s).error? = some e := by
    rw [(Ahead.ofSource s).nthNext] at h
    exact Course.error_mem_items_iff.mp (List.mem_of_getElem? h)
  refine ⟨fun n e h => Course.isCorruption_or_spoilt hs (hdelivered h),
    fun view token? calls e h => Course.isCorruption_or_spoilt hs (error?_of_close h), fun fault hspoilt => ?_⟩
  have herror := Course.error?_of_spoiltBy hspoilt
  refine ⟨rfl, ?_, fun n e h => ?_, fun view calls hcalls hnone => ?_⟩
  · obtain ⟨n, hn⟩ := List.mem_iff_getElem?.mp (Course.error_mem_items_iff.mpr herror)
    exact ⟨n, ((Ahead.ofSource s).nthNext n).trans hn⟩
  · exact Option.some.inj ((hdelivered h).symm.trans herror)
  · obtain ⟨-, -, all, -, hkeeps⟩ := keeps_protocol s view
    refine (hkeeps.close_eq_error_iff _ _).mpr ⟨herror, ⟨calls, [], rfl, hcalls, hnone⟩, fun first later heq => ?_⟩
    -- none of the calls was one to close
    have hmem : Call.close ∈ calls ++ [.next] := heq ▸ by simp
    simp only [List.mem_append, List.mem_singleton, reduceCtorEq, or_false] at hmem
    exact absurd (hcalls _ hmem) (by decide)

/-- A metadata record whose document ends before the number of its fields. -/
theorem isCorruption_unless_spoilt_empty_body :
    let s : Source := .ofBytes [9, 0, 0, 0, 0, 4, 0, 0, 0, 74, 96, 64, 73]
    s.SpoiltBy .unexpectedEnd ∧
    (Error.serialization .unexpectedEnd).isCorruption = false ∧
    (∃ n, nthNext (ofSource s) n = some (.error (.serialization .unexpectedEnd))) ∧
    ∀ view : View, ((view.ofSource s (some .fresh)).after [.next]).close.1 =
      .error (.serialization .unexpectedEnd) := by
  intro s
  let r : Record := ⟨.metadata, [4, 0, 0, 0]⟩
  have hs : s.Holds ([r].flatMap encode ++ []) := ⟨rfl, by decide +kernel⟩
  have hsize : ∀ r' ∈ [r], r'.frame.length ≤ maxRecordSize := List.forall_mem_singleton.mpr (by decide)
  have hbody : r.spoilt? = some .unexpectedEnd := by with_unfolding_all rfl
  have hspoilt : s.SpoiltBy .unexpectedEnd :=
    ⟨[], r, [], (reads_of_records hsize (.inl rfl) hs).1, by simp [outcomes], hbody⟩
  obtain ⟨-, -, hreports⟩ := isCorruption_unless_spoilt _ s hs
  obtain ⟨hclass, hyields, -, hcloses⟩ := hreports _ hspoilt
  refine ⟨hspoilt, hclass, hyields, fun view => ?_⟩
  have hnone : ((view.ofSource s (some .fresh)).after []).next.1 = none := by
    obtain ⟨-, -, all, hall, hkeeps⟩ := keeps_protocol s view
    have hentries : (Course.ofSource s).entries = [] := by
      rw [Course.ofSource, (reads_of_records hsize (.inl rfl) hs).1, Course.ofRecords, outcome?_of_spoilt hbody]
    rw [hentries] at hall
    obtain rfl : [] = all := Except.ok.inj hall
    exact hkeeps.next_eq [] (by simp [Undisturbed])
  exact hcloses view [] (by simp [Undisturbed]) hnone

end StreamIterator

end Telemetry

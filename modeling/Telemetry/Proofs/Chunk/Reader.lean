import Telemetry.Proofs.Chunk.Course

/-!
# What a reader of chunks delivers

A reader gives the outcomes of the records of its stream one after the other, up to the first that is an error and
including it, and nothing from then on (`ChunkReader.nthNext_ofSource`). From this and from the framing of streams
follows what becomes of a stream that is cut, and of two streams one after the other (`ChunkReader.reads_framed`).
-/

namespace Telemetry

/-! ## What records give -/

namespace Record

/-- What a reader delivers for records, after those before them. -/
def outcomes (before : List Record) : List Record → List (Except Error Chunk)
  | [] => []
  | r :: rs => (outcome? before r).toList ++ outcomes (before ++ [r]) rs

theorem outcomes_append (before rs rs' : List Record) :
    outcomes before (rs ++ rs') = outcomes before rs ++ outcomes (before ++ rs) rs' := by
  induction rs generalizing before with
  | nil => simp [outcomes]
  | cons r rs ih =>
    rw [List.cons_append, outcomes, outcomes, ih, ← List.append_assoc, List.append_assoc before [r] rs,
      List.singleton_append]

/-- What the first of some records give comes first. -/
theorem outcomes_isPrefix {rs rs' : List Record} (before : List Record) (h : rs <+: rs') :
    outcomes before rs <+: outcomes before rs' := by
  obtain ⟨more, rfl⟩ := h
  rw [outcomes_append]
  exact List.prefix_append _ _

/-- A reader has nothing to give for the end of a stream, unless it is malformed. -/
def ending (t : Bytes) : List (Except Error Chunk) :=
  match (front t).1 with
  | .error e => [.error e]
  | .ok _ => []

end Record

namespace ChunkReader

open Record

/-- The items up to the first error, and including it. -/
def untilError : List (Except Error Chunk) → List (Except Error Chunk)
  | [] => []
  | .ok c :: items => .ok c :: untilError items
  | .error e :: _ => [.error e]

theorem untilError_map_ok_append (chunks : List Chunk) (items : List (Except Error Chunk)) :
    untilError (chunks.map .ok ++ items) = chunks.map .ok ++ untilError items := by
  induction chunks with
  | nil => rfl
  | cons c chunks ih => rw [List.map_cons, List.cons_append, untilError, ih, List.cons_append]

/-- Items without an error are chunks. -/
theorem exists_chunks_of_untilError {items : List (Except Error Chunk)}
    (h : ∀ e, .error e ∉ untilError items) : ∃ chunks : List Chunk, items = chunks.map .ok := by
  induction items with
  | nil => exact ⟨[], rfl⟩
  | cons item items ih =>
    cases item with
    | error e => exact absurd (List.mem_singleton_self _) (h e)
    | ok c =>
      obtain ⟨chunks, rfl⟩ := ih fun e he => h e (List.mem_cons_of_mem _ he)
      exact ⟨c :: chunks, rfl⟩

/-! ## Whole streams -/

/-- The course of records are their outcomes. -/
theorem items_ofRecords (e? : Option Error) (before rs : List Record) :
    (Course.ofRecords e? before rs).items = untilError (outcomes before rs ++ e?.toList.map .error) := by
  induction rs generalizing before with
  | nil => cases e? <;> rfl
  | cons r rs ih =>
    rw [Course.ofRecords, outcomes]
    cases outcome? before r with
    | none => exact ih _
    | some result =>
      cases result with
      | error e => rfl
      | ok c => exact congrArg _ (ih _)

/-- A reader that has read nothing delivers what the records of its source give. -/
theorem nthNext_ofSource {rs : List Record} (hsize : ∀ r ∈ rs, r.frame.length ≤ maxRecordSize) {t : Bytes}
    (hend : IsEnd t) {s : Source} (hs : s.Holds (rs.flatMap encode ++ t)) (n : Nat) :
    nthNext (ofSource s) n = (untilError (outcomes [] rs ++ ending t))[n]? := by
  obtain ⟨hrecords, herror⟩ := reads_of_records hsize hend hs
  have hending : (reads s).2.toList.map .error = ending t := by
    rw [ending]
    cases hfront : (front t).1 with
    | error e => rw [(herror e).mpr hfront]; rfl
    | ok r? =>
      cases hreads : (reads s).2 with
      | none => rfl
      | some e => simp [(herror e).mp hreads] at hfront
  rw [(Ahead.ofSource s).nthNext, Course.ofSource, items_ofRecords, hrecords, hending]

/-- A stream on which a reader has no error to report consists of records, and each of them decodes. -/
theorem exists_records_of_no_error {s : Source} {bytes : Bytes} (hs : s.Holds bytes)
    (h : ∀ n e, nthNext (ofSource s) n ≠ some (.error e)) :
    ∃ (rs : List Record) (chunks : List Chunk), bytes = rs.flatMap encode ∧
      (∀ r ∈ rs, r.frame.length ≤ maxRecordSize) ∧ outcomes [] rs = chunks.map .ok := by
  obtain ⟨rs, t, rfl, hsize, hend⟩ := exists_records bytes
  have hnone : ∀ e, .error e ∉ untilError (outcomes [] rs ++ ending t) := by
    intro e he
    obtain ⟨n, hn⟩ := List.mem_iff_getElem?.mp he
    exact h n e (by rw [nthNext_ofSource hsize hend hs, hn])
  obtain ⟨chunks, hchunks⟩ := exists_chunks_of_untilError hnone
  rcases hend with rfl | ⟨e, he⟩
  · rw [ending, front_nil, List.append_nil] at hchunks
    exact ⟨rs, chunks, List.append_nil _, hsize, hchunks⟩
  · -- an error at the end would be among the items
    have hmem : Except.error e ∈ chunks.map Except.ok := by
      rw [← hchunks, ending, he]
      exact List.mem_append_right _ (List.mem_singleton_self _)
    simp at hmem

/-- The first part of items that are chunks consists of chunks. -/
private theorem exists_chunks_of_isPrefix {items : List (Except Error Chunk)} {chunks : List Chunk}
    (h : items <+: chunks.map .ok) : ∃ chunks' : List Chunk, items = chunks'.map .ok :=
  ⟨chunks.take items.length, by rw [List.map_take, ← List.prefix_iff_eq_take.mp h]⟩

/-- A reader of a stream that was cut delivers the chunks of the records before the cut, and then nothing if the cut
is at a boundary, or an error. -/
theorem nthNext_of_cut {rs : List Record} (hsize : ∀ r ∈ rs, r.frame.length ≤ maxRecordSize) {chunks : List Chunk}
    (hchunks : outcomes [] rs = chunks.map .ok) {cut : Nat} (hcut : cut ≤ (rs.flatMap encode).length) {s : Source}
    (hs : s.Holds ((rs.flatMap encode).take cut)) :
    ∃ delivered : List Chunk, outcomes [] (whole cut rs) = delivered.map .ok ∧
      ((IsBoundary cut rs ∧ ∀ n, nthNext (ofSource s) n = (delivered.map Except.ok)[n]?) ∨
        (¬ IsBoundary cut rs ∧ ∃ e, e.isCorruption = true ∧
          ∀ n, nthNext (ofSource s) n = (delivered.map .ok ++ [.error e])[n]?)) := by
  have hwhole : ∀ r ∈ whole cut rs, r.frame.length ≤ maxRecordSize := fun r hr =>
    hsize r ((whole_isPrefix cut rs).subset hr)
  obtain ⟨delivered, hdelivered⟩ :=
    exists_chunks_of_isPrefix (hchunks ▸ outcomes_isPrefix [] (whole_isPrefix cut rs))
  obtain ⟨t, htake, hend⟩ := take_flatMap_encode hcut
  rw [htake] at hs
  refine ⟨delivered, hdelivered, ?_⟩
  rcases hend with ⟨hboundary, rfl⟩ | ⟨hinside, hne, r, hr, hpart, hall⟩
  · refine .inl ⟨hboundary, fun n => ?_⟩
    rw [nthNext_ofSource hwhole (.inl rfl) hs, hdelivered, untilError_map_ok_append]
    simp [ending, front_nil, untilError]
  · have hword : maxRecordSize < UInt32.size := by decide
    obtain ⟨fault, hfault⟩ := front_of_cut (Nat.lt_of_le_of_lt (hsize r hr) hword) hne hpart hall
    refine .inr ⟨hinside, .invalidFormat fault, rfl, fun n => ?_⟩
    rw [nthNext_ofSource hwhole (.inr ⟨_, hfault⟩) hs, hdelivered, untilError_map_ok_append, ending, hfault]
    rfl

/-- The framing of streams. Records come back from a source one by one, and then whatever the bytes after them give: nothing
after the last byte, and an error if a record was cut off there. Therefore, if a reader of chunks has no error to report on
the source, then on any front of its bytes the reader delivers the chunks of the records that lie wholly before the cut,
and after them nothing exactly if the cut is at a boundary of records, and one error of corruption otherwise. On two
streams one after the other it delivers each chunk with the last metadata document before it, up to the first record
that does not decode. -/
structure Framed (s : Source) : Prop where
  nthRead_eq : ∀ (rs : List Record) (t : Bytes), (∀ r ∈ rs, r.frame.length ≤ maxRecordSize) →
    s.Holds (rs.flatMap encode ++ t) → ∀ n < rs.length, nthRead s n = .ok rs[n]?
  nthRead_behind : ∀ (rs : List Record) (t : Bytes) (u : Source), (∀ r ∈ rs, r.frame.length ≤ maxRecordSize) →
    s.Holds (rs.flatMap encode ++ t) → u.Holds t → ∀ n, nthRead s (rs.length + n) = nthRead u n
  nthRead_end : ∀ rs : List Record, (∀ r ∈ rs, r.frame.length ≤ maxRecordSize) → s.Holds (rs.flatMap encode) →
    ∀ n, nthRead s (rs.length + n) = .ok none
  nthRead_cut : ∀ (rs : List Record) (t : Bytes), (∀ r ∈ rs, r.frame.length ≤ maxRecordSize) →
    s.Holds (rs.flatMap encode ++ t) → ∀ r : Record, r.frame.length < UInt32.size → t ≠ [] → t <+: r.encode →
    t ≠ r.encode → ∃ fault, nthRead s rs.length = .error (.invalidFormat fault)
  fronts : ∀ bytes, s.Holds bytes → (∀ n e, nthNext (ofSource s) n ≠ some (.error e)) →
    ∃ rs : List Record, bytes = rs.flatMap encode ∧ (∀ r ∈ rs, r.frame.length ≤ maxRecordSize) ∧
      (∀ n, nthNext (ofSource s) n = (outcomes [] rs)[n]?) ∧
      ∀ (cut : Nat) (u : Source), cut ≤ bytes.length → u.Holds (bytes.take cut) →
        ∃ delivered : List Chunk, outcomes [] (whole cut rs) = delivered.map .ok ∧
          ((IsBoundary cut rs ∧ ∀ n, nthNext (ofSource u) n = (delivered.map Except.ok)[n]?) ∨
            (¬ IsBoundary cut rs ∧ ∃ e, e.isCorruption = true ∧
              ∀ n, nthNext (ofSource u) n = (delivered.map .ok ++ [.error e])[n]?))
  joined : ∀ (rs : List Record) (bytes : Bytes), (∀ r ∈ rs, r.frame.length ≤ maxRecordSize) →
    s.Holds (rs.flatMap encode ++ bytes) →
    ∃ (rs' : List Record) (t : Bytes), bytes = rs'.flatMap encode ++ t ∧
      (∀ r ∈ rs', r.frame.length ≤ maxRecordSize) ∧ IsEnd t ∧
      ∀ n, nthNext (ofSource s) n = (untilError (outcomes [] rs ++ outcomes rs rs' ++ ending t))[n]?

/-- It is so for every source. -/
theorem reads_framed (s : Source) : Framed s where
  nthRead_eq rs t hsize hs := (nthRead_of_records hsize hs (u := .ofBytes t) ⟨rfl, rfl⟩).1
  nthRead_behind rs t u hsize hs hu := (nthRead_of_records hsize hs hu).2
  nthRead_end rs hsize hs n := by
    have hnothing : (Source.ofBytes []).Holds [] := ⟨rfl, rfl⟩
    rw [(nthRead_of_records hsize (by rwa [List.append_nil]) hnothing).2, nthRead_of_end hnothing]
  nthRead_cut rs t hsize hs r hr hne hpart hall := by
    have hu : (Source.ofBytes t).Holds t := ⟨rfl, rfl⟩
    obtain ⟨fault, hfault⟩ := front_of_cut hr hne hpart hall
    refine ⟨fault, ?_⟩
    rw [← hfault, ← (holds_of_readFrom hu).1]
    exact (nthRead_of_records hsize hs hu).2 0
  fronts bytes hs hfine := by
    obtain ⟨rs, chunks, rfl, hsize, hchunks⟩ := exists_records_of_no_error hs hfine
    refine ⟨rs, rfl, hsize, fun n => ?_, fun cut u hcut hu => nthNext_of_cut hsize hchunks hcut hu⟩
    rw [← List.append_nil (rs.flatMap encode)] at hs
    rw [nthNext_ofSource hsize (.inl rfl) hs, hchunks, untilError_map_ok_append]
    simp [ending, front_nil, untilError]
  joined rs bytes hsize hs := by
    obtain ⟨rs', t, rfl, hsize', hend⟩ := exists_records bytes
    refine ⟨rs', t, rfl, hsize', hend, fun n => ?_⟩
    have hboth : ∀ r ∈ rs ++ rs', r.frame.length ≤ maxRecordSize := fun r hr =>
      (List.mem_append.mp hr).elim (hsize r) (hsize' r)
    rw [← List.append_assoc, ← List.flatMap_append] at hs
    rw [nthNext_ofSource hboth hend hs, outcomes_append, List.nil_append]

/-- A chunk, the beginning of the same chunk again, and that beginning alone. -/
theorem reads_framed_one_chunk :
    ∃ r : Record, ∃ e,
      nthRead (.ofBytes (r.encode ++ r.encode.take 10)) 0 = .ok (some r) ∧
      (∃ fault, nthRead (.ofBytes (r.encode ++ r.encode.take 10)) 1 = .error (.invalidFormat fault)) ∧
      e.isCorruption = true ∧ ∀ n, nthNext (ofSource (.ofBytes (r.encode.take 10))) n = [Except.error e][n]? := by
  let r : Record := .ofChunk [49, 0, 0, 0, 120, 1, 1, 49, 0, 206, 255, 33, 0, 0, 0, 1, 0, 0, 0, 0, 0, 0, 0, 1, 0, 0, 0,
    0, 0, 0, 0, 116, 5, 0, 0, 0, 7, 0, 0, 0, 1, 0, 0, 0, 2, 0, 0, 0, 1, 0, 0, 0, 128, 128, 128, 128, 16, 0, 0, 9, 34,
    181, 2, 193]
  have hlen : 10 < r.encode.length := by decide
  have hsize : ∀ r' ∈ [r], r'.frame.length ≤ maxRecordSize :=
    List.forall_mem_singleton.mpr (by decide)
  have hbytes : [r].flatMap encode = r.encode := List.flatMap_singleton ..
  have hframed := reads_framed (.ofBytes (r.encode ++ r.encode.take 10))
  have hs : (Source.ofBytes (r.encode ++ r.encode.take 10)).Holds ([r].flatMap encode ++ r.encode.take 10) :=
    ⟨rfl, by rw [hbytes]; rfl⟩
  have hfirst := hframed.nthRead_eq [r] (r.encode.take 10) hsize hs
  have hsecond := hframed.nthRead_cut [r] (r.encode.take 10) hsize hs r
  have houtcomes : outcomes [] [r] = [.ok ⟨[("t", .timestamp 7 1)], none,
      [⟨⟨["t"], .timestamp, 7⟩, #[7, 4294967303]⟩, ⟨⟨["t"], .timestamp, 1⟩, #[1, 1]⟩], 1⟩] := by
    with_unfolding_all rfl
  have hfine : ∀ n e, nthNext (ofSource (.ofBytes r.encode)) n ≠ some (.error e) := by
    intro n e hn
    rw [nthNext_ofSource hsize (.inl rfl) ⟨rfl, by rw [List.append_nil, hbytes]; rfl⟩, houtcomes] at hn
    simpa [untilError, ending, front_nil] using List.mem_of_getElem? hn
  obtain ⟨rs, hrs, hsize', -, hfront⟩ := (reads_framed (.ofBytes r.encode)).fronts r.encode ⟨rfl, rfl⟩ hfine
  obtain rfl : [r] = rs := flatMap_encode_inj hsize hsize' (hbytes.trans hrs)
  obtain ⟨delivered, hdelivered, hend⟩ := hfront 10 (.ofBytes (r.encode.take 10)) (Nat.le_of_lt hlen) ⟨rfl, rfl⟩
  have hwhole : whole 10 [r] = [] := by rw [whole, if_neg (Nat.not_le.mpr hlen)]
  rw [hwhole, outcomes] at hdelivered
  obtain rfl := List.map_eq_nil_iff.mp hdelivered.symm
  obtain ⟨-, e, he, hitems⟩ := hend.resolve_left fun h => not_isBoundary_cons (by decide) hlen h.1
  exact ⟨r, e, hfirst 0 Nat.one_pos, hsecond (by decide) (by decide) (List.take_prefix 10 _) (by decide), he,
    hitems⟩

end ChunkReader

end Telemetry

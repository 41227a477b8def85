import Telemetry.Proofs.Chunk.Drain
import Telemetry.Proofs.Crc32

/-!
# Damage to a record

A frame is accepted only if the check at its end is that of what stands before it, and then the register of the check
has gone through the whole frame to its residue (`Record.register_frame`). Damage to one or more of four bytes in a row
leaves another register, wherever in the frame it stands, also across the end of the body (`Record.IsDamaged.exists_frame`).
So the damage is found by whoever comes to the record: by `Record.decode`, by a read from a source, and by every reader
and iterator of chunks (`Record.damage_detected`).
-/

namespace Telemetry

open Record ChunkReader

namespace Record

/-- Bytes that differ from those of a record in one or more of four bytes in a row, none of them in the length. -/
structure IsDamaged (r : Record) (bytes : Bytes) : Prop where
  length_eq : bytes.length = r.encode.length
  ne : bytes ≠ r.encode
  within : ∃ first, lengthSize ≤ first ∧ ∀ i, bytes[i]? ≠ r.encode[i]? → first ≤ i ∧ i < first + 4

/-! ## Frames -/

/-- The check that stands at the end of a frame. -/
def storedCheck (frame : Bytes) : UInt32 :=
  UInt32.ofNat (Bytes.toNat (frame.drop (frame.length - 4)))

/-- The check of what stands before it. -/
def computedCheck (frame : Bytes) : UInt32 :=
  Crc32.checksum (frame.take (frame.length - 4))

/-- What is said of a frame in which the two differ. -/
def mismatch (frame : Bytes) : Error :=
  .checksumMismatch (storedCheck frame) (computedCheck frame)

variable {r : Record} {bytes frame : Bytes}

theorem ofFrame_eq_mismatch (hlen : minFrame ≤ frame.length) (h : storedCheck frame ≠ computedCheck frame) :
    ofFrame frame = .error (mismatch frame) := by
  rw [ofFrame, if_neg (Nat.not_lt.mpr hlen)]
  simp only [List.splitAt_eq]
  exact if_pos h

/-- The checks agree exactly if the whole frame takes the register to its residue. -/
theorem storedCheck_eq_iff (hlen : 4 ≤ frame.length) :
    storedCheck frame = computedCheck frame ↔ Crc32.register Crc32.full frame = Crc32.residue := by
  have htrailer : (frame.drop (frame.length - 4)).length = 4 := by
    rw [List.length_drop]
    omega
  rw [storedCheck, computedCheck, Crc32.ofNat_toNat_eq_checksum_iff htrailer, List.take_append_drop]

theorem register_frame (r : Record) : Crc32.register Crc32.full r.frame = Crc32.residue := by
  have hcheck : UInt32.ofNat (Bytes.toNat (Bytes.ofNat 4 (Crc32.checksum r.content).toNat)) =
      Crc32.checksum r.content := by
    rw [Bytes.toNat_ofNat_of_lt (Crc32.checksum r.content).toNat_lt, UInt32.ofNat_toNat]
  exact (Crc32.ofNat_toNat_eq_checksum_iff (Bytes.length_ofNat 4 _)).mp hcheck

/-- Lists of one length that agree outside some places in a row differ in a part at most. -/
theorem exists_parts_of_agree {α : Type} {xs ys : List α} (first n : Nat) (hlen : xs.length = ys.length)
    (h : ∀ i, xs[i]? ≠ ys[i]? → first ≤ i ∧ i < first + n) :
    ∃ front mid mid' back, xs = front ++ mid ++ back ∧ ys = front ++ mid' ++ back ∧
      mid.length = mid'.length ∧ mid.length ≤ n := by
  have hsame (i : Nat) (hi : i < first ∨ first + n ≤ i) : xs[i]? = ys[i]? := by
    by_contra hne
    have hplace := h i hne
    omega
  have hfront : xs.take first = ys.take first := by
    apply List.ext_getElem?
    intro i
    rw [List.getElem?_take, List.getElem?_take]
    split
    · next hi => exact hsame i (.inl hi)
    · rfl
  have hback : xs.drop (first + n) = ys.drop (first + n) := by
    apply List.ext_getElem?
    intro i
    rw [List.getElem?_drop, List.getElem?_drop]
    exact hsame _ (.inr (Nat.le_add_right _ i))
  have hparts (zs : List α) : zs = zs.take first ++ (zs.drop first).take n ++ zs.drop (first + n) := by
    rw [List.append_assoc, ← List.drop_drop, List.take_append_drop, List.take_append_drop]
  refine ⟨xs.take first, (xs.drop first).take n, (ys.drop first).take n, xs.drop (first + n), hparts xs, ?_, ?_,
    List.length_take_le _ _⟩
  · rw [hfront, hback]
    exact hparts ys
  · rw [List.length_take, List.length_take, List.length_drop, List.length_drop, hlen]

/-- Damaged bytes have the length of the record in front, and behind it a frame as long as that of the record, in which
the checks differ. -/
theorem IsDamaged.exists_frame (h : r.IsDamaged bytes) :
    ∃ frame, bytes = Bytes.ofNat 4 r.frame.length ++ frame ∧ frame.length = r.frame.length ∧
      storedCheck frame ≠ computedCheck frame := by
  obtain ⟨first, hfirst, hwithin⟩ := h.within
  have hlength : r.encode.take lengthSize = Bytes.ofNat 4 r.frame.length := List.take_left' (Bytes.length_ofNat 4 _)
  have hencode : r.encode.drop lengthSize = r.frame := List.drop_left' (Bytes.length_ofNat 4 _)
  have hheader : bytes.take lengthSize = Bytes.ofNat 4 r.frame.length := by
    rw [← hlength]
    apply List.ext_getElem?
    intro i
    rw [List.getElem?_take, List.getElem?_take]
    split
    · next hi =>
      by_contra hne
      exact absurd (hwithin i hne).1 (by omega)
    · rfl
  have hlen : (bytes.drop lengthSize).length = r.frame.length := by
    rw [List.length_drop, h.length_eq, ← List.length_drop, hencode]
  have hbytes : bytes = Bytes.ofNat 4 r.frame.length ++ bytes.drop lengthSize := by
    rw [← hheader, List.take_append_drop]
  refine ⟨bytes.drop lengthSize, hbytes, hlen, fun hchecks => ?_⟩
  have hminimal := length_frame r
  rw [storedCheck_eq_iff (by omega), ← register_frame r] at hchecks
  have hplaces : ∀ i, (bytes.drop lengthSize)[i]? ≠ r.frame[i]? →
      first - lengthSize ≤ i ∧ i < first - lengthSize + 4 := by
    intro i hi
    rw [← hencode, List.getElem?_drop, List.getElem?_drop] at hi
    have hplace := hwithin _ hi
    omega
  obtain ⟨before, mid, mid', behind, hdamaged, hframe, hmid, hle⟩ := exists_parts_of_agree _ _ hlen hplaces
  rw [hdamaged, hframe] at hchecks
  obtain rfl := Crc32.eq_of_register_eq hmid hle hchecks
  apply h.ne
  rw [hbytes, encode, hdamaged, ← hframe]

/-! ## One record -/

theorem decode_eq_mismatch (hmin : minFrame ≤ frame.length) (hsize : frame.length < UInt32.size)
    (h : storedCheck frame ≠ computedCheck frame) (rest : Bytes) :
    decode (Bytes.ofNat 4 frame.length ++ frame ++ rest) = .error (mismatch frame) := by
  rw [decode, List.append_assoc, lengthSize, Bytes.readWord?_append hsize]
  simp only [Bytes.split?_append, ofFrame_eq_mismatch hmin h]

/-- A source that has the frame to give, with its length in front, is found broken whatever becomes of it later. -/
theorem readFrom_eq_mismatch (hmin : minFrame ≤ frame.length) (hsize : frame.length ≤ maxRecordSize)
    (h : storedCheck frame ≠ computedCheck frame) {s : Source} {rest : Bytes}
    (hs : s.supply = Bytes.ofNat 4 frame.length ++ frame ++ rest) : (readFrom s).1 = .error (mismatch frame) := by
  have hword : maxRecordSize < UInt32.size := by decide
  have hlength : Bytes.toNat (Bytes.ofNat 4 frame.length) = frame.length :=
    Bytes.toNat_ofNat_of_lt (Nat.lt_of_le_of_lt hsize hword)
  rw [List.append_assoc] at hs
  obtain ⟨t, hheader, hafter⟩ := Source.fill_append hs
  have hleft : t.supply = frame ++ rest := by rw [hafter.supply_eq, hs, List.drop_left]
  obtain ⟨u, hframe, -⟩ := Source.fill_append hleft
  rw [Bytes.length_ofNat] at hheader
  simp only [readFrom, lengthSize, hheader, hlength, if_neg (Nat.not_lt.mpr hsize), hframe, ofFrame_eq_mismatch hmin h]

/-! ## A record in a stream -/

/-- The records that a source has to give first are read one by one, and then what comes after them. -/
theorem exists_behind {rs : List Record} (hsize : ∀ r ∈ rs, r.frame.length ≤ maxRecordSize) {t : Bytes} {s : Source}
    (hs : s.supply = rs.flatMap encode ++ t) :
    ∃ u, u.supply = t ∧ (∀ n, n < rs.length → nthRead s n = .ok rs[n]?) ∧
      (∀ n, nthRead s (rs.length + n) = nthRead u n) ∧ reads s = (rs ++ (reads u).1, (reads u).2) := by
  induction rs generalizing s with
  | nil =>
    refine ⟨s, hs, fun n hn => absurd hn (Nat.not_lt_zero n), fun n => ?_, rfl⟩
    rw [List.length_nil, Nat.zero_add]
  | cons r rs ih =>
    rw [List.flatMap_cons, List.append_assoc] at hs
    have hread := readFrom_eq_record_iff.mpr ⟨⟨_, hs.symm⟩, hsize r List.mem_cons_self⟩
    have hleft : (readFrom s).2.supply = rs.flatMap encode ++ t := by
      rw [(isAfter_of_readFrom hread).supply_eq, hs, List.drop_left]
    obtain ⟨u, hu, hrecords, hthen, hreads⟩ := ih (fun r' hr' => hsize r' (List.mem_cons_of_mem r hr')) hleft
    refine ⟨u, hu, fun n hn => ?_, fun n => ?_, ?_⟩
    · cases n with
      | zero => exact hread
      | succ n => exact hrecords n (Nat.lt_of_succ_lt_succ hn)
    · rw [List.length_cons, Nat.add_right_comm]
      exact hthen n
    · rw [reads_of_record hread, hreads, List.cons_append]

/-- Local damage to a record is found.

Change one or more of four bytes in a row of a record, in its kind, its body or its check, or across them. The checks of
the frame then differ. Whatever follows the bytes, they do not decode, and the error tells both checks. If the record is
not too long to be read at all, a source that has these bytes to give first gives that error. If it has other records to
give before them, it gives these records and then that error; and if they decode, a reader of chunks delivers their
chunks and then that error, and an iterator of any kind gives all items of their chunks and then closes with that
error. -/
theorem damage_detected (r : Record) (hlength : r.frame.length < UInt32.size) (bytes : Bytes)
    (h : r.IsDamaged bytes) :
    storedCheck (bytes.drop lengthSize) ≠ computedCheck (bytes.drop lengthSize) ∧
    (∀ rest, decode (bytes ++ rest) = .error (mismatch (bytes.drop lengthSize))) ∧
    (r.frame.length ≤ maxRecordSize → ∀ (rs : List Record) (rest : Bytes) (s : Source),
      (∀ r' ∈ rs, r'.frame.length ≤ maxRecordSize) → s.supply = rs.flatMap encode ++ (bytes ++ rest) →
      (∀ n, n < rs.length → nthRead s n = .ok rs[n]?) ∧
      nthRead s rs.length = .error (mismatch (bytes.drop lengthSize)) ∧
      ∀ chunks : List Chunk, outcomes [] rs = chunks.map .ok →
        (∀ n, nthNext (.ofSource s) n =
          (chunks.map .ok ++ [.error (mismatch (bytes.drop lengthSize))])[n]?) ∧
        ∀ (view : View) (token? : Option CancelToken), token?.any CancelToken.isCancelled = false →
          ∃ groups it, chunks.mapM view.items = .ok groups ∧
            (view.ofSource s token?).drain = (groups.flatten.toArray, it) ∧
            it.close.1 = .error (mismatch (bytes.drop lengthSize))) := by
  obtain ⟨frame, rfl, hlen, hchecks⟩ := h.exists_frame
  have hmin : minFrame ≤ frame.length := by
    rw [hlen, length_frame]
    exact Nat.le_add_left _ _
  rw [← hlen] at hlength ⊢
  have hframe : (Bytes.ofNat 4 frame.length ++ frame).drop lengthSize = frame :=
    List.drop_left' (Bytes.length_ofNat 4 _)
  rw [hframe]
  refine ⟨hchecks, decode_eq_mismatch hmin hlength hchecks, fun hsize rs rest s hsizes hs => ?_⟩
  obtain ⟨u, hu, hrecords, hthen, hreads⟩ := exists_behind hsizes hs
  have hread := readFrom_eq_mismatch hmin hsize hchecks hu
  rw [reads_of_error hread, List.append_nil] at hreads
  refine ⟨hrecords, (hthen 0).trans hread, fun chunks hchunks => ?_⟩
  obtain ⟨hentries, herror⟩ := Course.map_chunk_ofRecords (some (mismatch frame)) hchunks
  have hcourse : Course.ofSource s = .ofRecords (some (mismatch frame)) [] rs := by rw [Course.ofSource, hreads]
  rw [← hcourse] at hentries herror
  refine ⟨fun n => ?_, fun view token? htoken => ?_⟩
  · rw [(Ahead.ofSource s).nthNext, Course.items, herror, ← hentries, List.map_map]
    rfl
  · obtain ⟨groups, it, hgroups, hdrain, hclose⟩ := StreamIterator.drain_ofSource s view token? htoken
    rw [hentries] at hgroups
    rw [herror] at hclose
    exact ⟨groups, it, hgroups, hdrain, hclose⟩

/-- A metadata record in which the last byte of the body and two bytes of the check are changed, behind the record as it
was. -/
theorem damage_detected_across_body :
    let r : Record := ⟨.metadata, [12, 0, 0, 0, 0, 0, 0, 0, 0, 0, 0, 0]⟩
    let bytes : Bytes := [17, 0, 0, 0, 0, 12, 0, 0, 0, 0, 0, 0, 0, 0, 0, 0, 3, 4, 11, 127, 10]
    let e : Error := .checksumMismatch 176098052 2474072761
    r.frame.length ≤ maxRecordSize ∧ r.IsDamaged bytes ∧ decode (bytes ++ [7]) = .error e ∧
      nthRead (.ofBytes (r.encode ++ (bytes ++ [7]))) 0 = .ok (some r) ∧
      nthRead (.ofBytes (r.encode ++ (bytes ++ [7]))) 1 = .error e ∧
      nthNext (.ofSource (.ofBytes (r.encode ++ (bytes ++ [7])))) 0 = some (.error e) := by
  intro r bytes e
  have hsize : r.frame.length ≤ maxRecordSize := by decide
  have hdamaged : r.IsDamaged bytes := by
    refine ⟨by decide +kernel, by decide +kernel, 16, by decide, fun i hi => ?_⟩
    by_cases hlt : i < 21
    · have hall : ∀ i < 21, bytes[i]? ≠ r.encode[i]? → 16 ≤ i ∧ i < 16 + 4 := by decide +kernel
      exact hall i hlt hi
    · rw [List.getElem?_eq_none (Nat.le_of_not_lt hlt), List.getElem?_eq_none (Nat.le_of_not_lt hlt)] at hi
      exact absurd rfl hi
  obtain ⟨-, hdecode, hreaders⟩ := damage_detected r (by decide) bytes hdamaged
  have he : mismatch (bytes.drop lengthSize) = e := by decide +kernel
  rw [he] at hdecode hreaders
  obtain ⟨hrecords, hread, hchunks⟩ := hreaders hsize [r] [7] (.ofBytes (r.encode ++ (bytes ++ [7])))
    (List.forall_mem_singleton.mpr hsize) rfl
  have houtcomes : outcomes [] [r] = ([] : List Chunk).map .ok := by with_unfolding_all rfl
  exact ⟨hsize, hdamaged, hdecode [7], hrecords 0 Nat.one_pos, hread, (hchunks [] houtcomes).1 0⟩

end Record

end Telemetry

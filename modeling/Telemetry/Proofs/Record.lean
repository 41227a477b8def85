import Telemetry.Proofs.Source
import Telemetry.Record.Stream

/-!
# Reading back a stream of records

A record comes back from its frame (`Record.ofFrame_frame`), and nothing else does: a frame that is accepted is
that of the record it is read as (`Record.eq_frame_of_ofFrame`). So the bytes that a reader takes off a stream are
those that a writer puts there.

What a source that does not fail gives is determined by its bytes (`Record.readFrom_eq`), however it hands them
out. The record at the front of bytes is therefore described without a source (`Record.front`), and so are the ways
in which a stream can go on: with a record (`front_eq_record_iff`), with nothing (`front_nil`), or with the
beginning of a record that was cut off (`front_of_cut`). Records that were written one after the other come back
one by one (`readAll_of_rest`).
-/

namespace Telemetry.Record

/-! ## Frames -/

@[simp] theorem ofByte?_byte (kind : RecordKind) : RecordKind.ofByte? kind.byte = some kind := by
  cases kind <;> rfl

theorem byte_of_ofByte? {byte : UInt8} {kind : RecordKind} (h : RecordKind.ofByte? byte = some kind) :
    byte = kind.byte := by
  unfold RecordKind.ofByte? at h
  split at h
  · exact Option.some.inj h ▸ rfl
  · exact Option.some.inj h ▸ rfl
  · simp at h

@[simp] theorem length_frame (r : Record) : r.frame.length = r.body.length + 5 := by
  simp [frame, content]

/-- A record comes back from its frame. -/
theorem ofFrame_frame (r : Record) : ofFrame r.frame = .ok r := by
  have hcontent : r.frame.take (r.frame.length - 4) = r.content := by
    rw [length_frame, frame]
    exact List.take_left' (by simp [content])
  have htrailer : r.frame.drop (r.frame.length - 4) =
      Bytes.ofNat 4 (Crc32.checksum r.content).toNat := by
    rw [length_frame, frame]
    exact List.drop_left' (by simp [content])
  have hcheck : UInt32.ofNat (Bytes.toNat (Bytes.ofNat 4 (Crc32.checksum r.content).toNat)) =
      Crc32.checksum r.content := by
    rw [Bytes.toNat_ofNat_of_lt (Crc32.checksum r.content).toNat_lt, UInt32.ofNat_toNat]
  rw [ofFrame, if_neg (by rw [length_frame, minFrame]; omega)]
  simp only [List.splitAt_eq, hcontent, htrailer, hcheck]
  simp [content]

/-- Four bytes that stand for a word are the bytes of the word. -/
private theorem eq_ofNat_of_toNat {trailer : Bytes} {check : UInt32} (hlen : trailer.length = 4)
    (h : UInt32.ofNat (Bytes.toNat trailer) = check) : trailer = Bytes.ofNat 4 check.toNat := by
  have hlt := Bytes.toNat_lt trailer
  rw [hlen] at hlt
  rw [← h, UInt32.toNat_ofNat_of_lt' hlt, ← hlen, Bytes.ofNat_toNat]

/-- A frame that is accepted is the frame of the record it is read as. -/
theorem eq_frame_of_ofFrame {bytes : Bytes} {r : Record} (h : ofFrame bytes = .ok r) : bytes = r.frame := by
  rw [ofFrame] at h
  split at h
  · simp at h
  · next hlen =>
    rw [minFrame] at hlen
    simp only [List.splitAt_eq] at h
    split at h
    · simp at h
    · next hcheck =>
      split at h
      · simp at h
      · next byte body hcontent =>
        split at h
        · next kind hkind =>
          obtain rfl := Except.ok.inj h
          have htrailer : (bytes.drop (bytes.length - 4)).length = 4 := by
            rw [List.length_drop]
            omega
          have hword := eq_ofNat_of_toNat htrailer (Decidable.not_not.mp hcheck)
          rw [frame, content, ← byte_of_ofByte? hkind, ← hcontent, ← hword, List.take_append_drop]
        · simp at h

/-! ## The front of a stream -/

/-- What a reader finds at the front of the bytes of a stream, and what it leaves. -/
def front (bytes : Bytes) : Except Error (Option Record) × Bytes :=
  match bytes.split? lengthSize with
  | none => (if bytes.isEmpty then .ok none else .error (.invalidFormat .recordHeaderTruncated), [])
  | some (header, rest) =>
    let length := Bytes.toNat header
    if maxRecordSize < length then (.error (.invalidFormat (.recordTooLong length)), rest)
    else
      match rest.split? length with
      | none => (.error (.invalidFormat .recordIncomplete), [])
      | some (frame, rest) => ((ofFrame frame).map some, rest)

/-- A request takes a split of what a source has to give, unless that is too little. -/
private theorem fill_eq (s : Source) (want : Nat) :
    (∃ bytes t, s.supply.split? want = some (bytes, t.supply) ∧ want ≤ s.supply.length ∧
      s.fill want = (.full bytes, t) ∧ t.IsAfter want s) ∨
    (s.supply.split? want = none ∧
      ((∃ t, s.fill want = (.short s.supply, t) ∧ t.IsAfter s.supply.length s) ∨
        s.failure? ≠ none ∧ ∃ words t, s.fill want = (.failed words, t))) := by
  by_cases hwant : want ≤ s.supply.length
  · obtain ⟨t, ht, hafter⟩ := Source.fill_append (List.take_append_drop want s.supply).symm
    rw [List.length_take, Nat.min_eq_left hwant] at ht hafter
    exact .inl ⟨_, t, by rw [Bytes.split?_eq, if_pos hwant, hafter.supply_eq], hwant, ht, hafter⟩
  · exact .inr ⟨by rw [Bytes.split?_eq, if_neg hwant], Source.fill_of_lt (Nat.lt_of_not_le hwant)⟩

/-- What is read from a source stands at the front of what it has to give; or it fails, and no record stands there. -/
theorem readFrom_cases (s : Source) :
    ((readFrom s).1 = (front s.supply).1 ∧ ∃ n ≤ s.supply.length, (front s.supply).2 = s.supply.drop n ∧
      (readFrom s).2.IsAfter n s) ∨
    (s.failure? ≠ none ∧ (∃ words, (readFrom s).1 = .error (.io words)) ∧
      ∀ r rest, front s.supply ≠ (.ok (some r), rest)) := by
  rcases fill_eq s lengthSize with
    ⟨header, t, hsplit, hheader, hfill, hafter⟩ | ⟨hsplit, ⟨t, hfill, hafter⟩ | ⟨hfailure, words, t, hfill⟩⟩
  · by_cases hlong : maxRecordSize < Bytes.toNat header
    · simp only [readFrom, front, hsplit, hfill, if_pos hlong]
      exact .inl ⟨trivial, _, hheader, hafter.supply_eq, hafter⟩
    · rcases fill_eq t (Bytes.toNat header) with
        ⟨frame, u, hframe, hlen, hfill', hafter'⟩ | ⟨hframe, ⟨u, hfill', hafter'⟩ | ⟨hfailure, words, u, hfill'⟩⟩
      · simp only [readFrom, front, hsplit, hfill, if_neg hlong, hframe, hfill']
        have hboth := hafter.trans hafter'
        rw [hafter.supply_eq, List.length_drop] at hlen
        refine .inl ⟨?_, _, by omega, hboth.supply_eq, ?_⟩
        · cases ofFrame frame <;> rfl
        · cases ofFrame frame <;> exact hboth
      · simp only [readFrom, front, hsplit, hfill, if_neg hlong, hframe, hfill']
        have hboth := hafter.trans hafter'
        rw [hafter.supply_eq, List.length_drop, Nat.add_sub_cancel' hheader] at hboth
        exact .inl ⟨trivial, _, Nat.le_refl _, List.drop_length.symm, hboth⟩
      · simp only [readFrom, front, hsplit, hfill, if_neg hlong, hframe, hfill']
        exact .inr ⟨hafter.failure?_eq ▸ hfailure, ⟨words, rfl⟩, by simp⟩
  · refine .inl ?_
    cases hsupply : s.supply with
    | nil =>
      rw [hsupply] at hsplit hfill hafter
      simp only [readFrom, front, hsplit, hfill]
      exact ⟨rfl, 0, Nat.le_refl 0, rfl, hafter⟩
    | cons b bytes =>
      rw [hsupply] at hsplit hfill hafter
      simp only [readFrom, front, hsplit, hfill]
      exact ⟨rfl, _, Nat.le_refl _, List.drop_length.symm, hafter⟩
  · simp only [readFrom, front, hsplit, hfill]
    exact .inr ⟨hfailure, ⟨words, rfl⟩, fun r rest => by split <;> simp⟩

/-- What is read from a source that does not fail is what stands at the front of its bytes. -/
theorem readFrom_eq {s : Source} (h : s.failure? = none) :
    (readFrom s).1 = (front s.rest).1 ∧ (readFrom s).2.rest = (front s.rest).2 ∧
      (readFrom s).2.failure? = none := by
  rcases readFrom_cases s with ⟨hresult, n, -, hrest, hafter⟩ | ⟨hfailure, -⟩
  · rw [Source.supply_of_failure?_eq_none h] at hresult hrest
    exact ⟨hresult, hafter.rest_eq.trans hrest.symm, hafter.failure?_eq.trans h⟩
  · exact absurd h hfailure

/-- At the end of a stream there is no record. -/
theorem front_nil : front [] = (.ok none, []) :=
  rfl

/-- A length in front of a frame that fits it is read back. -/
private theorem split?_encode {r : Record} (hsize : r.frame.length < UInt32.size) (rest : Bytes) :
    Bytes.split? lengthSize (r.encode ++ rest) = some (Bytes.ofNat 4 r.frame.length, r.frame ++ rest) ∧
      Bytes.toNat (Bytes.ofNat 4 r.frame.length) = r.frame.length := by
  refine ⟨?_, Bytes.toNat_ofNat_of_lt hsize⟩
  rw [Bytes.split?_eq_some_iff, encode, List.append_assoc]
  exact ⟨rfl, Bytes.length_ofNat 4 _⟩

/-- A length and a frame that is accepted are the bytes of the record in the frame. -/
private theorem eq_encode_append {bytes header tail frame rest : Bytes} {r : Record}
    (hheader : bytes.split? lengthSize = some (header, tail))
    (hframe : tail.split? (Bytes.toNat header) = some (frame, rest)) (hof : ofFrame frame = .ok r) :
    bytes = r.encode ++ rest ∧ Bytes.toNat header = r.frame.length := by
  obtain ⟨rfl, hlen⟩ := Bytes.split?_eq_some_iff.mp hheader
  obtain ⟨rfl, hlen'⟩ := Bytes.split?_eq_some_iff.mp hframe
  obtain rfl := eq_frame_of_ofFrame hof
  refine ⟨?_, hlen'.symm⟩
  rw [encode, hlen', ← List.append_assoc]
  congr 2
  rw [lengthSize] at hlen
  rw [← hlen, Bytes.ofNat_toNat]

/-- A record is found at the front of a stream exactly if its bytes stand there, and it is not too long. -/
theorem front_eq_record_iff {bytes rest : Bytes} {r : Record} :
    front bytes = (.ok (some r), rest) ↔ bytes = r.encode ++ rest ∧ r.frame.length ≤ maxRecordSize := by
  have hword : maxRecordSize < UInt32.size := by decide
  constructor
  · intro h
    rw [front] at h
    split at h
    · split at h <;> simp at h
    · next header tail hheader =>
      dsimp only at h
      split at h
      · simp at h
      · next hlong =>
        split at h
        · simp at h
        · next frame rest' hframe =>
          simp only [Prod.mk.injEq] at h
          obtain ⟨hrecord, rfl⟩ := h
          cases hof : ofFrame frame with
          | error e => simp [hof, Except.map] at hrecord
          | ok r' =>
            obtain rfl : r' = r := by simpa [hof, Except.map] using hrecord
            obtain ⟨hbytes, hlen⟩ := eq_encode_append hheader hframe hof
            exact ⟨hbytes, hlen ▸ Nat.le_of_not_lt hlong⟩
  · rintro ⟨rfl, hsize⟩
    obtain ⟨hheader, hlength⟩ := split?_encode (by omega : r.frame.length < UInt32.size) rest
    simp only [front, hheader, hlength, if_neg (Nat.not_lt.mpr hsize), Bytes.split?_append, ofFrame_frame]
    rfl

/-- What a reader can take for a record where another one was written: its kind is the same, its body is the front of
what was written, and it is that record if the length of the frame fits in front. -/
theorem of_encode_append_eq {r r' : Record} {rest rest' : Bytes} (h : r'.encode ++ rest' = r.encode ++ rest)
    (hsize : r'.frame.length < UInt32.size) :
    r'.frame.length = r.frame.length % UInt32.size ∧ r'.kind = r.kind ∧
      (∃ check more, r'.body ++ check = r.body ++ more) ∧
      (r.frame.length < UInt32.size → r' = r ∧ rest' = rest) := by
  rw [encode, encode, List.append_assoc, List.append_assoc] at h
  obtain ⟨hheader, hframes⟩ := List.append_inj h (by simp)
  have hlength : r'.frame.length = r.frame.length % UInt32.size := by
    have hword := congrArg Bytes.toNat hheader
    rwa [Bytes.toNat_ofNat_of_lt hsize, Bytes.toNat_ofNat] at hword
  refine ⟨hlength, ?_⟩
  have hcontents : r'.kind.byte :: (r'.body ++ (Bytes.ofNat 4 (Crc32.checksum r'.content).toNat ++ rest')) =
      r.kind.byte :: (r.body ++ (Bytes.ofNat 4 (Crc32.checksum r.content).toNat ++ rest)) := by
    simpa [frame, content] using hframes
  obtain ⟨hbyte, hbodies⟩ := List.cons_eq_cons.mp hcontents
  have hkind : some r'.kind = some r.kind := by
    rw [← ofByte?_byte, ← ofByte?_byte r.kind, hbyte]
  refine ⟨Option.some.inj hkind, ⟨_, _, hbodies⟩, fun hfits => ?_⟩
  rw [Nat.mod_eq_of_lt hfits] at hlength
  obtain ⟨hframe, hrest⟩ := List.append_inj hframes hlength
  have hrecord := ofFrame_frame r'
  rw [hframe, ofFrame_frame] at hrecord
  exact ⟨(Except.ok.inj hrecord).symm, hrest⟩

/-- A record is found in memory exactly if its bytes stand at the front, and its length fits its field. -/
theorem decode_eq_ok_iff {bytes : Bytes} {r : Record} {k : Nat} :
    decode bytes = .ok (r, k) ↔
      (∃ rest, bytes = r.encode ++ rest) ∧ r.frame.length < UInt32.size ∧ k = r.encode.length := by
  constructor
  · intro h
    rw [decode, Bytes.readWord?] at h
    cases hheader : bytes.split? lengthSize with
    | none => simp [hheader] at h
    | some halves =>
      obtain ⟨header, tail⟩ := halves
      simp only [hheader, Option.map_some] at h
      split at h
      · simp at h
      · next frame rest hframe =>
        cases hof : ofFrame frame with
        | error e => simp [hof] at h
        | ok r' =>
          simp only [hof, Except.ok.injEq, Prod.mk.injEq] at h
          obtain ⟨rfl, rfl⟩ := h
          obtain ⟨hbytes, hlen⟩ := eq_encode_append hheader hframe hof
          have hword := Bytes.toNat_lt header
          rw [(Bytes.split?_eq_some_iff.mp hheader).2] at hword
          refine ⟨⟨rest, hbytes⟩, hlen ▸ hword, ?_⟩
          rw [encode, List.length_append, Bytes.length_ofNat, hlen, lengthSize]
  · rintro ⟨⟨rest, rfl⟩, hsize, rfl⟩
    obtain ⟨hheader, hlength⟩ := split?_encode hsize rest
    simp only [decode, Bytes.readWord?, hheader, Option.map_some, hlength, Bytes.split?_append, ofFrame_frame]
    rw [encode, List.length_append, Bytes.length_ofNat, lengthSize]

/-- The first four bytes of a record are its length. -/
theorem toNat_take_encode {r : Record} (hsize : r.frame.length < UInt32.size) (rest : Bytes) :
    Bytes.toNat ((r.encode ++ rest).take lengthSize) = r.frame.length := by
  have hheader := (split?_encode hsize rest).1
  rw [Bytes.split?_eq] at hheader
  split at hheader
  · obtain ⟨htake, -⟩ := Prod.mk.inj (Option.some.inj hheader)
    rw [htake, Bytes.toNat_ofNat_of_lt hsize]
  · simp at hheader

/-- A stream that goes on with a record that was cut off is malformed. -/
theorem front_of_cut {r : Record} (hsize : r.frame.length < UInt32.size) {bytes : Bytes} (hne : bytes ≠ [])
    (hpart : bytes <+: r.encode) (hcut : bytes ≠ r.encode) :
    ∃ fault, (front bytes).1 = .error (.invalidFormat fault) := by
  obtain ⟨missing, hmissing⟩ := hpart
  have hpos : 0 < missing.length := by
    rw [List.length_pos_iff]
    rintro rfl
    exact hcut (by rw [← hmissing, List.append_nil])
  by_cases hheader : lengthSize ≤ bytes.length
  · -- the length is there, and the frame is shorter than it says
    have hword : bytes.take lengthSize = Bytes.ofNat 4 r.frame.length := by
      have htake := congrArg (List.take lengthSize) hmissing
      rw [List.take_append_of_le_length hheader, encode] at htake
      exact htake.trans (List.take_left' (Bytes.length_ofNat 4 _))
    have hlen := congrArg List.length hmissing
    rw [encode, List.length_append, List.length_append, Bytes.length_ofNat] at hlen
    have hsplit : bytes.split? lengthSize = some (Bytes.ofNat 4 r.frame.length, bytes.drop lengthSize) := by
      rw [Bytes.split?_eq, if_pos hheader, hword]
    have hframe : Bytes.split? r.frame.length (bytes.drop lengthSize) = none := by
      have hfour : 4 ≤ bytes.length := hheader
      rw [Bytes.split?_eq, if_neg]
      rw [List.length_drop, lengthSize]
      omega
    have hlength : Bytes.toNat (Bytes.ofNat 4 r.frame.length) = r.frame.length :=
      Bytes.toNat_ofNat_of_lt hsize
    simp only [front, hsplit, hlength, hframe]
    split
    · exact ⟨_, rfl⟩
    · exact ⟨_, rfl⟩
  · have hsplit : bytes.split? lengthSize = none := by
      rw [Bytes.split?_eq, if_neg hheader]
    have hempty : bytes.isEmpty = false := by
      cases bytes with
      | nil => exact absurd rfl hne
      | cons b bytes => rfl
    simp only [front, hsplit, hempty]
    exact ⟨_, rfl⟩

/-! ## Whole streams -/

/-- The next record of a source is the one at the front of its bytes. -/
theorem readFrom_of_rest {s : Source} {r : Record} {rest : Bytes} (h : s.failure? = none)
    (hrest : s.rest = r.encode ++ rest) (hsize : r.frame.length ≤ maxRecordSize) :
    ∃ t, readFrom s = (.ok (some r), t) ∧ t.rest = rest ∧ t.failure? = none := by
  obtain ⟨hresult, hleft, hfailure⟩ := readFrom_eq h
  rw [front_eq_record_iff.mpr ⟨hrest, hsize⟩] at hresult hleft
  exact ⟨(readFrom s).2, Prod.ext hresult rfl, hleft, hfailure⟩

/-- All records of a source, or the first error. -/
def readAll (s : Source) : Except Error (List Record) :=
  match _ : readFrom s with
  | (.error e, _) => .error e
  | (.ok none, _) => .ok []
  | (.ok (some r), t) => (readAll t).map (r :: ·)
termination_by s.rest.length
decreasing_by exact rest_lt_of_readFrom (by assumption)

/-- The records that make up the bytes of a source are read from it, in order. -/
theorem readAll_of_rest {records : List Record} (hsize : ∀ r ∈ records, r.frame.length ≤ maxRecordSize)
    {s : Source} (h : s.failure? = none) (hrest : s.rest = records.flatMap encode) :
    readAll s = .ok records := by
  induction records generalizing s with
  | nil =>
    have hresult := (readFrom_eq h).1
    rw [hrest] at hresult
    rw [readAll]
    split <;> rename_i heq <;> rw [heq] at hresult <;> simp [front_nil] at hresult
  | cons r records ih =>
    rw [List.flatMap_cons] at hrest
    obtain ⟨t, ht, htrest, htfailure⟩ := readFrom_of_rest h hrest (hsize r (by simp))
    have hmore := ih (fun r' hr' => hsize r' (by simp [hr'])) htfailure htrest
    rw [readAll]
    split <;> rename_i heq <;> rw [ht] at heq <;> simp at heq
    obtain ⟨rfl, rfl⟩ := heq
    rw [hmore]
    rfl

end Telemetry.Record

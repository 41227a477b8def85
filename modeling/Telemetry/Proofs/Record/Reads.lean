import Telemetry.Proofs.Record.Stream

/-!
# The records that a source gives

Whatever becomes of a source later, the record that is read from it stands at the front of what it has to give, and the
source is left at the end of the record (`Record.readFrom_eq_record_iff`, `Record.isAfter_of_readFrom`). For a source
that does not fail this is what `Record.decode` finds in its bytes (`Record.readFrom_iff_decode`).

`Record.reads` are all records of a source together with the error that ends them. They do not depend on how a source
hands out its bytes (`reads_congr`), and a source that fails gives the records that lie wholly before the failure
(`reads_of_take`).
-/

namespace Telemetry

theorem Source.Holds.supply_eq {s : Source} {bytes : Bytes} (hs : s.Holds bytes) : s.supply = bytes :=
  (supply_of_failure?_eq_none hs.failure_eq).trans hs.rest_eq

namespace Record

/-! ## One record -/

/-- A record is read from a source exactly if it comes first in what the source has to give. -/
theorem readFrom_eq_record_iff {s : Source} {r : Record} :
    (readFrom s).1 = .ok (some r) ↔ r.encode <+: s.supply ∧ r.frame.length ≤ maxRecordSize := by
  rcases readFrom_cases s with ⟨hresult, -⟩ | ⟨-, ⟨words, hfailed⟩, hnone⟩
  · rw [hresult]
    constructor
    · intro h
      obtain ⟨hsupply, hsize⟩ := front_eq_record_iff.mp (Prod.ext h rfl : _ = (_, (front s.supply).2))
      exact ⟨⟨_, hsupply.symm⟩, hsize⟩
    · rintro ⟨⟨more, hsupply⟩, hsize⟩
      rw [front_eq_record_iff.mpr ⟨hsupply.symm, hsize⟩]
  · constructor
    · intro h
      simp [hfailed] at h
    · rintro ⟨⟨more, hsupply⟩, hsize⟩
      exact absurd (front_eq_record_iff.mpr ⟨hsupply.symm, hsize⟩) (hnone r more)

/-- A source from which a record has been read stands at the end of the record. -/
theorem isAfter_of_readFrom {s : Source} {r : Record} (h : (readFrom s).1 = .ok (some r)) :
    (readFrom s).2.IsAfter r.encode.length s := by
  rcases readFrom_cases s with ⟨hresult, n, hle, hleft, hafter⟩ | ⟨-, ⟨words, hfailed⟩, -⟩
  · rw [hresult] at h
    obtain ⟨hsupply, -⟩ := front_eq_record_iff.mp (Prod.ext h rfl : _ = (_, (front s.supply).2))
    -- the same number of bytes is left after the record and after the read
    have hlen := congrArg List.length hsupply
    rw [hleft, List.length_append, List.length_drop] at hlen
    obtain rfl : n = r.encode.length := by omega
    exact hafter
  · simp [hfailed] at h

/-- Only one record comes first in any bytes. -/
theorem eq_of_isPrefix {r r' : Record} {bytes : Bytes} (h : r.encode <+: bytes) (h' : r'.encode <+: bytes)
    (hsize : r.frame.length ≤ maxRecordSize) (hsize' : r'.frame.length ≤ maxRecordSize) : r = r' := by
  obtain ⟨rest, hrest⟩ := h
  obtain ⟨rest', hrest'⟩ := h'
  have hfront := front_eq_record_iff.mpr ⟨hrest.symm, hsize⟩
  rw [front_eq_record_iff.mpr ⟨hrest'.symm, hsize'⟩] at hfront
  exact (Option.some.inj (Except.ok.inj (Prod.mk.inj hfront).1)).symm

variable {s u : Source} {bytes : Bytes}

/-- Reading from a source and decoding its bytes come to the same. -/
theorem readFrom_iff_decode (hs : s.Holds bytes) {r : Record} {k : Nat} :
    (readFrom s).1 = .ok (some r) ∧ (readFrom s).2.IsAfter k s ↔
      decode bytes = .ok (r, k) ∧ Bytes.toNat (bytes.take lengthSize) ≤ maxRecordSize := by
  have hword : maxRecordSize < UInt32.size := by decide
  rw [decode_eq_ok_iff]
  constructor
  · rintro ⟨hread, hafter⟩
    obtain ⟨hfront, hsize⟩ := readFrom_eq_record_iff.mp hread
    obtain ⟨rest, rfl⟩ := hs.supply_eq ▸ hfront
    have hfits : r.frame.length < UInt32.size := Nat.lt_of_le_of_lt hsize hword
    refine ⟨⟨⟨rest, rfl⟩, hfits, ?_⟩, by rwa [toNat_take_encode hfits]⟩
    have hposition := hafter.position_eq
    rw [(isAfter_of_readFrom hread).position_eq] at hposition
    omega
  · rintro ⟨⟨⟨rest, rfl⟩, hfits, rfl⟩, hsize⟩
    rw [toNat_take_encode hfits] at hsize
    have hread := readFrom_eq_record_iff.mpr ⟨⟨rest, hs.supply_eq.symm⟩, hsize⟩
    exact ⟨hread, isAfter_of_readFrom hread⟩

/-- There is no record exactly if there are no bytes. -/
theorem readFrom_none_iff (hs : s.Holds bytes) : (readFrom s).1 = .ok none ↔ bytes = [] := by
  rw [(holds_of_readFrom hs).1]
  constructor
  · intro h
    rcases isEnd_or_record bytes with (hnil | ⟨e, he⟩) | ⟨r, rest, rfl, hsize⟩
    · exact hnil
    · simp [he] at h
    · simp [front_eq_record_iff.mpr ⟨rfl, hsize⟩] at h
  · rintro rfl
    rfl

/-! ## All records -/

/-- The records of a source, and the error that ends them, unless the source just ends. -/
def reads (s : Source) : List Record × Option Error :=
  match _ : readFrom s with
  | (.error e, _) => ([], some e)
  | (.ok none, _) => ([], none)
  | (.ok (some r), t) => (r :: (reads t).1, (reads t).2)
termination_by s.rest.length
decreasing_by all_goals exact rest_lt_of_readFrom (by assumption)

theorem reads_of_error {e : Error} (h : (readFrom s).1 = .error e) : reads s = ([], some e) := by
  rw [reads]
  split <;> rename_i heq <;> rw [heq] at h <;> simp at h
  rw [h]

theorem reads_of_end (h : (readFrom s).1 = .ok none) : reads s = ([], none) := by
  rw [reads]
  split <;> rename_i heq <;> rw [heq] at h <;> simp at h

theorem reads_of_record {r : Record} (h : (readFrom s).1 = .ok (some r)) :
    reads s = (r :: (reads (readFrom s).2).1, (reads (readFrom s).2).2) := by
  rw [reads]
  split <;> rename_i heq <;> rw [heq] at h <;> simp at h
  rw [h, heq]

/-- A source whose next record cannot be read gives no records. -/
theorem reads_of_not_record (h : ∀ r, (readFrom s).1 ≠ .ok (some r)) : (reads s).1 = [] := by
  cases hread : (readFrom s).1 with
  | error e => rw [reads_of_error hread]
  | ok r? =>
    cases r? with
    | none => rw [reads_of_end hread]
    | some r => exact absurd hread (h r)

/-- How a source hands out its bytes makes no difference to its records. -/
theorem reads_congr (hs : s.Holds bytes) (hu : u.Holds bytes) : reads s = reads u := by
  induction hn : bytes.length using Nat.strongRecOn generalizing s u bytes with
  | ind n ih =>
    obtain ⟨hresult, hleft⟩ := holds_of_readFrom hs
    obtain ⟨hresult', hleft'⟩ := holds_of_readFrom hu
    cases hfront : (front bytes).1 with
    | error e => rw [reads_of_error (hresult.trans hfront), reads_of_error (hresult'.trans hfront)]
    | ok r? =>
      cases r? with
      | none => rw [reads_of_end (hresult.trans hfront), reads_of_end (hresult'.trans hfront)]
      | some r =>
        rw [reads_of_record (hresult.trans hfront), reads_of_record (hresult'.trans hfront)]
        obtain ⟨hbytes, -⟩ := front_eq_record_iff.mp (Prod.ext hfront rfl : _ = (_, (front bytes).2))
        have hpos := length_encode_pos r
        have hlen := congrArg List.length hbytes
        rw [List.length_append] at hlen
        rw [ih _ (by omega) hleft hleft' rfl]

/-- The records of a source that holds the bytes of some records up to the end of the stream. -/
theorem reads_of_records {rs : List Record} (hsize : ∀ r ∈ rs, r.frame.length ≤ maxRecordSize) {t : Bytes}
    (hend : IsEnd t) (hs : s.Holds (rs.flatMap encode ++ t)) :
    (reads s).1 = rs ∧ ∀ e, (reads s).2 = some e ↔ (front t).1 = .error e := by
  induction rs generalizing s with
  | nil =>
    have hresult := (holds_of_readFrom hs).1
    rw [List.flatMap_nil, List.nil_append] at hresult
    rcases hend with rfl | ⟨e, he⟩
    · rw [reads_of_end hresult]
      simp [front_nil]
    · rw [reads_of_error (hresult.trans he), he]
      simp
  | cons r rs ih =>
    rw [List.flatMap_cons, List.append_assoc] at hs
    obtain ⟨hresult, hleft⟩ := holds_of_readFrom hs
    rw [front_eq_record_iff.mpr ⟨rfl, hsize r (by simp)⟩] at hresult hleft
    obtain ⟨hmore, hends⟩ := ih (fun r' hr' => hsize r' (by simp [hr'])) hleft
    rw [reads_of_record hresult]
    exact ⟨congrArg _ hmore, hends⟩

/-- The first record of a source comes first in what the source has to give, and the others are those of the source
after it. -/
theorem of_reads_eq_cons {r : Record} {rs : List Record} (h : (reads s).1 = r :: rs) :
    (readFrom s).1 = .ok (some r) ∧ (reads (readFrom s).2).1 = rs := by
  cases hread : (readFrom s).1 with
  | error e => simp [reads_of_error hread] at h
  | ok r? =>
    cases r? with
    | none => simp [reads_of_end hread] at h
    | some r' =>
      rw [reads_of_record hread] at h
      obtain ⟨rfl, hmore⟩ := List.cons_eq_cons.mp h
      exact ⟨rfl, hmore⟩

/-- A source that gives the first bytes of another gives the records that lie wholly in them. -/
theorem reads_of_take {cut : Nat} (hu : u.Holds bytes) (hs : s.supply = bytes.take cut) :
    (reads s).1 = whole cut (reads u).1 := by
  induction hrs : (reads u).1 generalizing s u bytes cut with
  | nil =>
    refine reads_of_not_record fun r hr => ?_
    -- what can be read from the first source can be read from the other
    obtain ⟨hfront, hsize⟩ := readFrom_eq_record_iff.mp hr
    have hread : (readFrom u).1 = .ok (some r) := by
      rw [readFrom_eq_record_iff, hu.supply_eq]
      exact ⟨hfront.trans (hs ▸ List.take_prefix cut bytes), hsize⟩
    simp [reads_of_record hread] at hrs
  | cons r rs ih =>
    obtain ⟨hread, rfl⟩ := of_reads_eq_cons hrs
    obtain ⟨hfront, hsize⟩ := readFrom_eq_record_iff.mp hread
    rw [hu.supply_eq] at hfront
    rw [whole]
    split
    · next hfits =>
      obtain ⟨rest, rfl⟩ := hfront
      rw [List.take_append, List.take_of_length_le hfits] at hs
      have hfirst := readFrom_eq_record_iff.mpr ⟨⟨_, hs.symm⟩, hsize⟩
      have hleft : (readFrom s).2.supply = rest.take (cut - r.encode.length) := by
        rw [(isAfter_of_readFrom hfirst).supply_eq, hs, List.drop_left]
      have hother : (readFrom u).2.Holds rest := by
        have hafter := isAfter_of_readFrom hread
        refine ⟨hafter.failure?_eq.trans hu.failure_eq, ?_⟩
        rw [hafter.rest_eq, hu.rest_eq, List.drop_left]
      rw [reads_of_record hfirst, ih hother hleft rfl]
    · next hlong =>
      refine reads_of_not_record fun r' hr' => ?_
      -- only the first record of the other source could come first, and it is too long
      obtain ⟨hfront', hsize'⟩ := readFrom_eq_record_iff.mp hr'
      rw [hs] at hfront'
      obtain rfl := eq_of_isPrefix (hfront'.trans (List.take_prefix cut bytes)) hfront hsize' hsize
      have hlen := hfront'.length_le
      rw [List.length_take] at hlen
      omega

end Record

end Telemetry

import Telemetry.Proofs.Record

/-!
# The framing of a stream

Reading from a source again and again (`Record.nthRead`) depends on its bytes alone (`nthRead_congr`). If these are
the bytes of some records and something after them, the reads give the records and then what reads of the rest would
give (`nthRead_of_records`).

Every byte string is of that form, down to its end or to something malformed (`exists_records`), and is the bytes of
no other records (`flatMap_encode_inj`). A stream of records that is cut is the stream of the records that lie wholly
before the cut (`Record.whole`), followed by nothing if the cut is at a boundary between records, and by the beginning
of a record otherwise (`take_flatMap_encode`).
-/

namespace Telemetry

/-- The source does not fail, and these are its bytes. -/
structure Source.Holds (s : Source) (bytes : Bytes) : Prop where
  failure_eq : s.failure? = none
  rest_eq : s.rest = bytes

namespace Record

/-! ## Reading again and again -/

/-- What the reads of a source give one after the other, counted from zero. -/
def nthRead (s : Source) : Nat → Except Error (Option Record)
  | 0 => (readFrom s).1
  | n + 1 => nthRead (readFrom s).2 n

/-- After a read, a source holds what it left. -/
theorem holds_of_readFrom {s : Source} {bytes : Bytes} (hs : s.Holds bytes) :
    (readFrom s).1 = (front bytes).1 ∧ (readFrom s).2.Holds (front bytes).2 := by
  obtain ⟨hresult, hrest, hfailure⟩ := readFrom_eq hs.failure_eq
  rw [hs.rest_eq] at hresult hrest
  exact ⟨hresult, hfailure, hrest⟩

/-- How a source hands out its bytes makes no difference to what is read. -/
theorem nthRead_congr {s u : Source} {bytes : Bytes} (hs : s.Holds bytes) (hu : u.Holds bytes) (n : Nat) :
    nthRead s n = nthRead u n := by
  obtain ⟨hresult, hleft⟩ := holds_of_readFrom hs
  obtain ⟨hresult', hleft'⟩ := holds_of_readFrom hu
  induction n generalizing s u bytes with
  | zero => exact hresult.trans hresult'.symm
  | succ n ih =>
    obtain ⟨hresult, hnext⟩ := holds_of_readFrom hleft
    obtain ⟨hresult', hnext'⟩ := holds_of_readFrom hleft'
    exact ih hleft hleft' hresult hnext hresult' hnext'

/-- At its end a stream stays. -/
theorem nthRead_of_end {s : Source} (hs : s.Holds []) (n : Nat) : nthRead s n = .ok none := by
  induction n generalizing s with
  | zero => exact (holds_of_readFrom hs).1
  | succ n ih => exact ih (holds_of_readFrom hs).2

/-- Records come back one by one, and then whatever the bytes after them give. -/
theorem nthRead_of_records {rs : List Record} (hsize : ∀ r ∈ rs, r.frame.length ≤ maxRecordSize) {t : Bytes}
    {s u : Source} (hs : s.Holds (rs.flatMap encode ++ t)) (hu : u.Holds t) :
    (∀ n, n < rs.length → nthRead s n = .ok rs[n]?) ∧ ∀ n, nthRead s (rs.length + n) = nthRead u n := by
  induction rs generalizing s with
  | nil =>
    refine ⟨fun n hn => absurd hn (Nat.not_lt_zero n), fun n => ?_⟩
    rw [List.length_nil, Nat.zero_add]
    exact nthRead_congr hs hu n
  | cons r rs ih =>
    rw [List.flatMap_cons, List.append_assoc] at hs
    obtain ⟨hresult, hleft⟩ := holds_of_readFrom hs
    rw [front_eq_record_iff.mpr ⟨rfl, hsize r (by simp)⟩] at hresult hleft
    obtain ⟨hrecords, hthen⟩ := ih (fun r' hr' => hsize r' (by simp [hr'])) hleft
    refine ⟨fun n hn => ?_, fun n => ?_⟩
    · cases n with
      | zero => exact hresult
      | succ n => exact hrecords n (Nat.lt_of_succ_lt_succ hn)
    · rw [List.length_cons, Nat.add_right_comm]
      exact hthen n

/-! ## Every stream -/

/-- A stream ends here: there is nothing more, or it is malformed. -/
def IsEnd (t : Bytes) : Prop :=
  t = [] ∨ ∃ e, (front t).1 = .error e

theorem length_encode_pos (r : Record) : 0 < r.encode.length := by
  rw [encode, List.length_append, Bytes.length_ofNat]
  omega

/-- Bytes are the end of a stream or go on with a record. -/
theorem isEnd_or_record (bytes : Bytes) :
    IsEnd bytes ∨ ∃ (r : Record) (rest : Bytes), bytes = r.encode ++ rest ∧ r.frame.length ≤ maxRecordSize := by
  rcases hfront : front bytes with ⟨_ | _ | r, rest⟩
  · exact .inl (.inr ⟨_, congrArg Prod.fst hfront⟩)
  · refine .inl (.inl ?_)
    rw [front] at hfront
    split at hfront
    · split at hfront
      · exact List.isEmpty_iff.mp ‹_›
      · simp at hfront
    · dsimp only at hfront
      split at hfront
      · simp at hfront
      · split at hfront
        · simp at hfront
        · next frame _ _ =>
          cases hof : ofFrame frame <;> simp [hof, Except.map] at hfront
  · exact .inr ⟨r, rest, front_eq_record_iff.mp hfront⟩

/-- Every byte string is a sequence of records up to its end. -/
theorem exists_records (bytes : Bytes) :
    ∃ (rs : List Record) (t : Bytes),
      bytes = rs.flatMap encode ++ t ∧ (∀ r ∈ rs, r.frame.length ≤ maxRecordSize) ∧ IsEnd t := by
  induction hn : bytes.length using Nat.strongRecOn generalizing bytes with
  | ind n ih =>
    rcases isEnd_or_record bytes with hend | ⟨r, rest, rfl, hsize⟩
    · exact ⟨[], bytes, rfl, by simp, hend⟩
    · have hpos := length_encode_pos r
      rw [List.length_append] at hn
      obtain ⟨rs, t, rfl, hsizes, hend⟩ := ih rest.length (by omega) rest rfl
      exact ⟨r :: rs, t, by rw [List.flatMap_cons, List.append_assoc],
        List.forall_mem_cons.mpr ⟨hsize, hsizes⟩, hend⟩

/-- Only no records have no bytes. -/
theorem eq_nil_of_flatMap_encode {rs : List Record} (h : rs.flatMap encode = []) : rs = [] := by
  rw [List.flatMap_eq_nil_iff] at h
  refine List.eq_nil_iff_forall_not_mem.mpr fun r hr => ?_
  have hpos := length_encode_pos r
  rw [h r hr] at hpos
  exact absurd hpos (Nat.lt_irrefl 0)

/-- The bytes of a stream are those of no other records. -/
theorem flatMap_encode_inj {rs rs' : List Record} (hsize : ∀ r ∈ rs, r.frame.length ≤ maxRecordSize)
    (hsize' : ∀ r ∈ rs', r.frame.length ≤ maxRecordSize) (h : rs.flatMap encode = rs'.flatMap encode) :
    rs = rs' := by
  induction rs generalizing rs' with
  | nil => exact (eq_nil_of_flatMap_encode h.symm).symm
  | cons r rs ih =>
    cases rs' with
    | nil => exact eq_nil_of_flatMap_encode h
    | cons r' rs' =>
      -- both records stand at the front
      have hfront : front ((r :: rs).flatMap encode) = (.ok (some r), rs.flatMap encode) :=
        front_eq_record_iff.mpr ⟨List.flatMap_cons, hsize r (by simp)⟩
      have hfront' : front ((r' :: rs').flatMap encode) = (.ok (some r'), rs'.flatMap encode) :=
        front_eq_record_iff.mpr ⟨List.flatMap_cons, hsize' r' (by simp)⟩
      rw [← h, hfront] at hfront'
      simp only [Prod.mk.injEq, Except.ok.injEq, Option.some.injEq] at hfront'
      obtain ⟨rfl, hrest⟩ := hfront'
      rw [ih (fun r hr => hsize r (by simp [hr])) (fun r hr => hsize' r (by simp [hr])) hrest]

/-! ## A cut -/

/-- The records that lie wholly in the first `cut` bytes of a stream of them. -/
def whole (cut : Nat) : List Record → List Record
  | [] => []
  | r :: rs => if r.encode.length ≤ cut then r :: whole (cut - r.encode.length) rs else []

/-- Some of the first records take exactly `cut` bytes. -/
def IsBoundary (cut : Nat) (rs : List Record) : Prop :=
  ∃ done, done <+: rs ∧ (done.flatMap encode).length = cut

/-- The first records lie wholly before a cut if their bytes do. -/
theorem isPrefix_whole_iff {cut : Nat} {done rs : List Record} :
    done <+: whole cut rs ↔ done <+: rs ∧ (done.flatMap encode).length ≤ cut := by
  induction rs generalizing cut done with
  | nil =>
    rw [whole, List.prefix_nil]
    exact ⟨fun h => by simp [h], fun h => h.1⟩
  | cons r rs ih =>
    cases done with
    | nil => simp
    | cons r' done =>
      rw [whole, List.cons_prefix_cons, List.flatMap_cons, List.length_append]
      split
      · next hfits =>
        rw [List.cons_prefix_cons, ih]
        constructor
        · rintro ⟨rfl, hdone, hlen⟩
          exact ⟨⟨rfl, hdone⟩, by omega⟩
        · rintro ⟨⟨rfl, hdone⟩, hlen⟩
          exact ⟨rfl, hdone, by omega⟩
      · next hfits =>
        constructor
        · intro h
          simp at h
        · rintro ⟨⟨rfl, -⟩, hlen⟩
          omega

theorem whole_isPrefix (cut : Nat) (rs : List Record) : whole cut rs <+: rs :=
  (isPrefix_whole_iff.mp (List.prefix_refl _)).1

/-- A boundary after a first record is a boundary among the records that follow it. -/
private theorem isBoundary_cons_iff {cut : Nat} {r : Record} {rs : List Record} (hfits : r.encode.length ≤ cut) :
    IsBoundary cut (r :: rs) ↔ IsBoundary (cut - r.encode.length) rs := by
  have hpos := length_encode_pos r
  constructor
  · rintro ⟨done, hdone, hlen⟩
    cases done with
    | nil =>
      rw [List.flatMap_nil, List.length_nil] at hlen
      omega
    | cons r' done =>
      obtain ⟨rfl, hrest⟩ := List.cons_prefix_cons.mp hdone
      rw [List.flatMap_cons, List.length_append] at hlen
      exact ⟨done, hrest, by omega⟩
  · rintro ⟨done, hdone, hlen⟩
    refine ⟨r :: done, List.cons_prefix_cons.mpr ⟨rfl, hdone⟩, ?_⟩
    rw [List.flatMap_cons, List.length_append]
    omega

/-- A cut in a first record is a boundary only in front of it. -/
theorem not_isBoundary_cons {cut : Nat} {r : Record} {rs : List Record} (hpos : 0 < cut)
    (hcut : cut < r.encode.length) : ¬ IsBoundary cut (r :: rs) := by
  rintro ⟨done, hdone, hlen⟩
  cases done with
  | nil =>
    rw [List.flatMap_nil, List.length_nil] at hlen
    omega
  | cons r' done =>
    obtain ⟨rfl, -⟩ := List.cons_prefix_cons.mp hdone
    rw [List.flatMap_cons, List.length_append] at hlen
    omega

/-- What is left of a stream of records that is cut: the records wholly before the cut, and nothing more at a
boundary, or the beginning of a record elsewhere. -/
theorem take_flatMap_encode {cut : Nat} {rs : List Record} (hcut : cut ≤ (rs.flatMap encode).length) :
    ∃ t, (rs.flatMap encode).take cut = (whole cut rs).flatMap encode ++ t ∧
      (IsBoundary cut rs ∧ t = [] ∨
        ¬ IsBoundary cut rs ∧ t ≠ [] ∧ ∃ r ∈ rs, t <+: r.encode ∧ t ≠ r.encode) := by
  induction rs generalizing cut with
  | nil =>
    obtain rfl : cut = 0 := Nat.le_zero.mp hcut
    exact ⟨[], rfl, .inl ⟨⟨[], List.prefix_refl _, rfl⟩, rfl⟩⟩
  | cons r rs ih =>
    rw [List.flatMap_cons, List.length_append] at hcut
    by_cases hfits : r.encode.length ≤ cut
    · obtain ⟨t, htake, hend⟩ := ih (by omega : cut - r.encode.length ≤ (rs.flatMap encode).length)
      refine ⟨t, ?_, ?_⟩
      · rw [whole, if_pos hfits, List.flatMap_cons, List.flatMap_cons, List.append_assoc, ← htake,
          List.take_append, List.take_of_length_le hfits]
      · rw [isBoundary_cons_iff hfits]
        exact hend.imp_right fun ⟨hinside, hne, r', hr', hpart⟩ =>
          ⟨hinside, hne, r', List.mem_cons_of_mem r hr', hpart⟩
    · have hlt : cut < r.encode.length := Nat.lt_of_not_le hfits
      have hwhole : whole cut (r :: rs) = [] := by rw [whole, if_neg hfits]
      have hlen : (r.encode.take cut).length = cut := List.length_take_of_le (Nat.le_of_lt hlt)
      refine ⟨r.encode.take cut, ?_, ?_⟩
      · rw [hwhole, List.flatMap_cons, List.take_append_of_le_length (Nat.le_of_lt hlt), List.flatMap_nil,
          List.nil_append]
      · rcases Nat.eq_zero_or_pos cut with rfl | hpos
        · exact .inl ⟨⟨[], List.nil_prefix, rfl⟩, List.take_zero⟩
        · refine .inr ⟨not_isBoundary_cons hpos hlt, ?_, r, List.mem_cons_self, List.take_prefix cut _, ?_⟩
          · intro hnil
            rw [hnil, List.length_nil] at hlen
            omega
          · intro hall
            rw [hall] at hlen
            omega

end Record

end Telemetry

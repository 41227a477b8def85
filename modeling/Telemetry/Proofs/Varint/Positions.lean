import Mathlib.Algebra.BigOperators.Ring.Finset
import Telemetry.Proofs.Varint

/-!
# Varints byte by byte

What a reader takes for a number can be told from the bytes by their positions: the first byte below 128 is the last of
the number, and the number is the sum of the groups up to it (`groupSum`). So a number is there exactly if that byte is
among the first ten and the sum fits 64 bits (`decode_eq_ok_iff_groupSum`). The tenth byte has to be 0 or 1 for that,
which is all that the reader looks at.

A number has other forms than the one that is written, and all of them are longer (`length_encode_lt`): groups of seven
bits determine the bytes when their number is given (`StandsFor.eq_of_length`), and no form is shorter than the groups
that the number needs (`StandsFor.length_encode_le`).
-/

namespace Telemetry.Varint

/-! ## Sums of groups -/

/-- The number whose groups of seven bits are the low bits of the first `k` bytes. -/
def groupSum (bytes : Bytes) (k : Nat) : Nat :=
  ∑ j ∈ Finset.range k, (bytes.getD j 0).toNat % 128 * 128 ^ j

/-- The first byte is the lowest group, and the others count 128 times as much. -/
theorem groupSum_cons (b : UInt8) (bytes : Bytes) (k : Nat) :
    groupSum (b :: bytes) (k + 1) = b.toNat % 128 + 128 * groupSum bytes k := by
  rw [groupSum, Finset.sum_range_succ', groupSum, Finset.mul_sum, Nat.add_comm]
  congr 1
  · simp
  · apply Finset.sum_congr rfl
    intro j _
    rw [List.getD_cons_succ, Nat.pow_succ, ← Nat.mul_assoc, Nat.mul_comm]

/-- The bytes up to the first one below 128 stand for the sum of their groups. -/
theorem standsFor_groupSum {bytes : Bytes} {last : Nat} (h : bytes.findIdx? (· < 128) = some last) :
    StandsFor (bytes.take (last + 1)) (groupSum bytes (last + 1)) := by
  induction bytes generalizing last with
  | nil => simp at h
  | cons b bytes ih =>
    rw [List.findIdx?_cons] at h
    rw [groupSum_cons, List.take_succ_cons]
    split at h
    · next hb =>
      obtain rfl := Option.some.inj h
      have hlow : b < 128 := of_decide_eq_true hb
      have hsmall : b.toNat % 128 = b.toNat := Nat.mod_eq_of_lt (UInt8.lt_iff_toNat_lt.mp hlow)
      rw [hsmall]
      exact .last hlow
    · next hb =>
      obtain ⟨last', hlast, rfl⟩ := Option.map_eq_some_iff.mp h
      exact .more (by simpa using hb) (ih hlast)

/-- Bytes that stand for a number end with the first one below 128, whatever follows them. -/
theorem StandsFor.findIdx?_append {front : Bytes} {n : Nat} (h : StandsFor front n) (rest : Bytes) :
    ∃ last, front.length = last + 1 ∧ (front ++ rest).findIdx? (· < 128) = some last := by
  induction h with
  | @last b hb => exact ⟨0, rfl, by simp [List.findIdx?_cons, hb]⟩
  | @more b front n hb _ ih =>
    obtain ⟨last, hlength, hlast⟩ := ih
    refine ⟨last + 1, by rw [List.length_cons, hlength], ?_⟩
    rw [List.cons_append, List.findIdx?_cons, hlast]
    simp [hb]

/-- Bytes stand for the sum of their groups, whatever follows them. -/
theorem StandsFor.eq_groupSum {front : Bytes} {n : Nat} (h : StandsFor front n) (rest : Bytes) :
    n = groupSum (front ++ rest) front.length := by
  induction h with
  | @last b hb =>
    have hsmall : b.toNat % 128 = b.toNat := Nat.mod_eq_of_lt (UInt8.lt_iff_toNat_lt.mp hb)
    rw [List.singleton_append, List.length_singleton, groupSum_cons, hsmall]
    rfl
  | @more b front n hb _ ih => rw [List.cons_append, List.length_cons, groupSum_cons, ← ih]

/-! ## How long a form is -/

/-- Bytes of a given number stand for a number in one way only. -/
theorem StandsFor.eq_of_length {front front' : Bytes} {n : Nat} (h : StandsFor front n) (h' : StandsFor front' n)
    (hlength : front.length = front'.length) : front = front' := by
  induction h generalizing front' with
  | @last b hb =>
    obtain ⟨b', rfl⟩ := List.length_eq_one_iff.mp hlength.symm
    generalize hn : b.toNat = n at h'
    cases h' with
    | last _ => rw [UInt8.toNat_inj.mp hn]
    | more _ hrest => cases hrest
  | @more b rest n hb hrest ih =>
    generalize hn : b.toNat % 128 + 128 * n = m at h'
    cases h' with
    | last _ =>
      obtain rfl := List.length_eq_zero_iff.mp (Nat.succ.inj hlength)
      cases hrest
    | @more b' rest' n' hb' hrest' =>
      have hbyte : b.toNat = b'.toNat := by
        have hhigh : 128 ≤ b.toNat := UInt8.le_iff_toNat_le.mp (UInt8.not_lt.mp hb)
        have hhigh' : 128 ≤ b'.toNat := UInt8.le_iff_toNat_le.mp (UInt8.not_lt.mp hb')
        have hlt := b.toNat_lt
        have hlt' := b'.toNat_lt
        omega
      have hmore : n = n' := by omega
      rw [UInt8.toNat_inj.mp hbyte, ih (hmore ▸ hrest') (Nat.succ.inj hlength)]

/-- A number has no more groups than there are bytes in any form of it. -/
theorem StandsFor.lt_pow {front : Bytes} {n : Nat} (h : StandsFor front n) : n < 128 ^ front.length := by
  induction h with
  | @last b hb => exact UInt8.lt_iff_toNat_lt.mp hb
  | @more b front n hb hrest ih =>
    rw [List.length_cons, Nat.pow_succ]
    have hlow := Nat.mod_lt b.toNat (show 128 > 0 by decide)
    omega

/-- What is written has no more bytes than the number has groups. -/
theorem length_groups_le {more n k : Nat} (h : n < 128 ^ (k + 1)) : (groups more n).length ≤ k + 1 := by
  induction more generalizing n k with
  | zero => exact Nat.succ_le_succ (Nat.zero_le k)
  | succ more ih =>
    rw [groups]
    split
    · exact Nat.succ_le_succ (Nat.zero_le k)
    · next hlarge =>
      cases k with
      | zero => exact absurd h hlarge
      | succ k =>
        have hhigh : n / 128 < 128 ^ (k + 1) := by
          apply Nat.div_lt_of_lt_mul
          rwa [Nat.mul_comm, ← Nat.pow_succ]
        exact Nat.succ_le_succ (ih hhigh)

/-- No form of a number is shorter than the one that is written. -/
theorem StandsFor.length_encode_le {front : Bytes} {n : UInt64} (h : StandsFor front n.toNat) :
    (encode n).length ≤ front.length := by
  obtain ⟨last, hlength, -⟩ := h.findIdx?_append []
  rw [hlength]
  apply length_groups_le
  rw [← hlength]
  exact h.lt_pow

/-- Every other input with the number in front is longer than what is written for it. -/
theorem length_encode_lt {n : UInt64} {bytes rest : Bytes} (h : decode bytes = (.ok n, rest)) (hne : bytes ≠ encode n) :
    (encode n).length < bytes.length := by
  obtain ⟨front, rfl, hspells⟩ := decode_eq_ok_iff.mp h
  have hle := hspells.standsFor.length_encode_le
  rw [List.length_append]
  by_contra hlt
  have hrest : rest = [] := List.length_eq_zero_iff.mp (by omega)
  have hfront : front = encode n := hspells.standsFor.eq_of_length (spells_encode n).standsFor (by omega)
  exact hne (by rw [hfront, hrest, List.append_nil])

/-! ## Reading by positions -/

/-- A number is found exactly if the first byte below 128 is one of the first ten and the groups up to it add up to the
number. What follows that byte is left. -/
theorem decode_eq_ok_iff_groupSum {n : UInt64} {bytes rest : Bytes} :
    decode bytes = (.ok n, rest) ↔
      ∃ last < maxLength, bytes.findIdx? (· < 128) = some last ∧ n.toNat = groupSum bytes (last + 1) ∧
        rest = bytes.drop (last + 1) := by
  rw [decode_eq_ok_iff]
  constructor
  · rintro ⟨front, rfl, hfront, hlength⟩
    obtain ⟨last, hlast, hfind⟩ := hfront.findIdx?_append rest
    refine ⟨last, by omega, hfind, ?_, ?_⟩
    · rw [← hlast]
      exact hfront.eq_groupSum rest
    · rw [← hlast, List.drop_left]
  · rintro ⟨last, hlt, hfind, hn, rfl⟩
    refine ⟨bytes.take (last + 1), (List.take_append_drop _ _).symm, ?_, ?_⟩
    · rw [hn]
      exact standsFor_groupSum hfind
    · rw [List.length_take]
      omega

/-- What is wrong with bytes that begin with no number is that they end too early or that the number is too large. -/
theorem Breaks.fault_cases {left : Nat} {bytes : Bytes} {fault : CorruptionFault} (h : Breaks left bytes fault) :
    fault = .varintTruncated ∨ fault = .varintOverflow := by
  cases h with
  | truncated => exact .inl rfl
  | overflow => exact .inr rfl

/-- Bytes are refused exactly if none of the first ten is the first one below 128, or the groups up to it add up to
more than 64 bits hold. -/
theorem exists_error_iff_groupSum {bytes : Bytes} :
    (∃ fault, (fault = .varintTruncated ∨ fault = .varintOverflow) ∧ (decode bytes).1 = .error fault) ↔
      ∀ last < maxLength, bytes.findIdx? (· < 128) = some last → UInt64.size ≤ groupSum bytes (last + 1) := by
  constructor
  · rintro ⟨fault, -, herror⟩ last hlt hfind
    by_contra hfits
    have hn : (UInt64.ofNat (groupSum bytes (last + 1))).toNat = groupSum bytes (last + 1) :=
      UInt64.toNat_ofNat_of_lt' (Nat.not_le.mp hfits)
    rw [decode_eq_ok_iff_groupSum.mpr ⟨last, hlt, hfind, hn, rfl⟩] at herror
    cases herror
  · intro h
    rcases hdecode : decode bytes with ⟨fault | n, rest⟩
    · refine ⟨fault, ?_, rfl⟩
      apply Breaks.fault_cases
      rw [← decode_eq_error_iff, hdecode]
    · obtain ⟨last, hlt, hfind, hn, -⟩ := decode_eq_ok_iff_groupSum.mp hdecode
      have hsize := h last hlt hfind
      rw [← hn] at hsize
      exact absurd n.toNat_lt (Nat.not_lt.mpr hsize)

/-- Varints are 64-bit numbers in groups of seven bits. What is written for a number is read back as it, whatever
follows; it takes ten bytes at most, and every other input that is read as the number is longer. Of any bytes a number
is read exactly if the first byte below 128 is among the first ten and the groups up to it add up to that number; these
bytes are taken and the others left. All other bytes are refused as corrupt. -/
theorem reads_groups :
    (∀ (n : UInt64) (tail : Bytes), decode (encode n ++ tail) = (.ok n, tail)) ∧
    (∀ n : UInt64, (encode n).length ≤ 10 ∧
      ∀ bytes rest : Bytes, decode bytes = (.ok n, rest) → bytes ≠ encode n → (encode n).length < bytes.length) ∧
    (∀ (bytes rest : Bytes) (n : UInt64), decode bytes = (.ok n, rest) ↔
      ∃ last < 10, bytes.findIdx? (· < 128) = some last ∧ n.toNat = groupSum bytes (last + 1) ∧
        rest = bytes.drop (last + 1)) ∧
    ∀ bytes : Bytes,
      (∃ fault, (fault = .varintTruncated ∨ fault = .varintOverflow) ∧ (decode bytes).1 = .error fault) ↔
        ∀ last < 10, bytes.findIdx? (· < 128) = some last → 2 ^ 64 ≤ groupSum bytes (last + 1) := by
  refine ⟨decode_encode, fun n => ⟨(spells_encode n).length_le, ?_⟩, ?_, ?_⟩
  · intro bytes rest hdecode hne
    exact length_encode_lt hdecode hne
  · intro bytes rest n
    exact decode_eq_ok_iff_groupSum
  · intro bytes
    exact exists_error_iff_groupSum

/-- The tenth byte: 1 gives the largest number, and 2 is one bit too much. A group of zeros at the end makes a longer form
of a number. -/
theorem reads_groups_tenth_byte :
    decode (List.replicate 9 255 ++ [1, 7]) = (.ok (-1), [7]) ∧
      (∃ fault, (fault = .varintTruncated ∨ fault = .varintOverflow) ∧
        (decode (List.replicate 9 255 ++ [2])).1 = .error fault) ∧
      (encode 5).length < ([133, 0] : Bytes).length := by
  obtain ⟨-, hshortest, hreads, hrefuses⟩ := reads_groups
  refine ⟨(hreads _ _ _).mpr ⟨9, by decide, rfl, by decide, rfl⟩, (hrefuses _).mpr ?_, ?_⟩
  · intro last _ hlast
    obtain rfl := Option.some.inj hlast
    decide
  · exact (hshortest 5).2 [133, 0] [] rfl (by decide)

end Telemetry.Varint

import Telemetry.Crc32

/-!
# What the check detects

The register of the check is linear in exclusive or, and a shift of it can be undone, since the highest bit of the
polynomial is set (`Crc32.shift_injective`). So two registers that differ still differ after any bytes
(`register_injective`), and feeding up to four bytes adds their number to the register and shifts it
(`register_eq_shifts`). Of two byte strings that agree but for four bytes in a row, at most one therefore leaves a given
register (`eq_of_register_eq`).

The check of a byte string, written behind it, takes part in this as any other bytes do: the register after both is
always the same (`ofNat_toNat_eq_checksum_iff`), however long the byte string is.
-/

namespace Telemetry.Crc32

/-! ## Shifts -/

theorem and_one_eq_one_iff (r : UInt32) : r &&& 1 = 1 ↔ r.toNat % 2 = 1 := by
  rw [← UInt32.toNat_inj, UInt32.toNat_and, ← Nat.and_one_is_mod]
  rfl

theorem toNat_shiftRight_one (r : UInt32) : (r >>> 1).toNat = r.toNat / 2 :=
  UInt32.toNat_shiftRight r 1

/-- A shift is linear. -/
theorem shift_xor (r s : UInt32) : shift (r ^^^ s) = shift r ^^^ shift s := by
  have hlow : (r ^^^ s) &&& 1 = 1 ↔ ¬ (r &&& 1 = 1 ↔ s &&& 1 = 1) := by
    rw [and_one_eq_one_iff, and_one_eq_one_iff, and_one_eq_one_iff, UInt32.toNat_xor, Nat.xor_mod_two_eq_one]
  simp only [shift, UInt32.shiftRight_xor, hlow]
  by_cases hr : r &&& 1 = 1
  · by_cases hs : s &&& 1 = 1
    · rw [if_neg (by simp [hr, hs]), if_pos hr, if_pos hs]
      -- the polynomial is added twice
      rw [UInt32.xor_assoc, UInt32.xor_comm polynomial, UInt32.xor_assoc, UInt32.xor_self, UInt32.xor_zero]
    · rw [if_pos (by simp [hr, hs]), if_pos hr, if_neg hs]
      rw [UInt32.xor_assoc, UInt32.xor_assoc, UInt32.xor_comm polynomial]
  · by_cases hs : s &&& 1 = 1
    · rw [if_pos (by simp [hr, hs]), if_neg hr, if_pos hs, UInt32.xor_assoc]
    · rw [if_neg (by simp [hr, hs]), if_neg hr, if_neg hs]

/-- Only from an empty register does a shift leave an empty one. -/
theorem eq_zero_of_shift_eq_zero {r : UInt32} (h : shift r = 0) : r = 0 := by
  have hhalf := toNat_shiftRight_one r
  have hlt := r.toNat_lt
  rw [shift] at h
  split at h
  · -- the highest bit of the polynomial would come from beyond the register
    have hpolynomial : r >>> 1 = polynomial := UInt32.xor_eq_zero_iff.mp h
    have hvalue : polynomial.toNat = 0xEDB88320 := rfl
    rw [hpolynomial, hvalue] at hhalf
    omega
  · next hlow =>
    rw [and_one_eq_one_iff] at hlow
    rw [h] at hhalf
    have hzero : (0 : UInt32).toNat = 0 := rfl
    apply UInt32.toNat_inj.mp
    omega

/-- A shift can be undone. -/
theorem shift_injective {r s : UInt32} (h : shift r = shift s) : r = s := by
  apply UInt32.xor_eq_zero_iff.mp
  apply eq_zero_of_shift_eq_zero
  rw [shift_xor, h, UInt32.xor_self]

theorem shifts_xor (n : Nat) (r s : UInt32) : shifts n (r ^^^ s) = shifts n r ^^^ shifts n s := by
  induction n generalizing r s with
  | zero => rfl
  | succ n ih => rw [shifts, shifts, shifts, shift_xor, ih]

theorem shifts_injective {n : Nat} {r s : UInt32} (h : shifts n r = shifts n s) : r = s := by
  induction n generalizing r s with
  | zero => exact h
  | succ n ih => exact shift_injective (ih h)

theorem shifts_add (m n : Nat) (r : UInt32) : shifts (m + n) r = shifts n (shifts m r) := by
  induction m generalizing r with
  | zero => rw [Nat.zero_add, shifts]
  | succ m ih => rw [Nat.add_right_comm, shifts, shifts, ih]

/-- A register whose lowest bit is clear is halved. -/
theorem shift_ofNat_two_mul {n : Nat} (h : 2 * n < UInt32.size) :
    shift (UInt32.ofNat (2 * n)) = UInt32.ofNat n := by
  have hdouble : (UInt32.ofNat (2 * n)).toNat = 2 * n := UInt32.toNat_ofNat_of_lt' h
  have hlow : ¬ (UInt32.ofNat (2 * n) &&& 1 = 1) := by
    rw [and_one_eq_one_iff, hdouble]
    omega
  rw [shift, if_neg hlow]
  apply UInt32.toNat_inj.mp
  rw [toNat_shiftRight_one, hdouble, UInt32.toNat_ofNat_of_lt' (Nat.lt_of_le_of_lt (by omega) h)]
  omega

/-- Bits that stand high enough are only moved. -/
theorem shifts_ofNat_shiftLeft {k n : Nat} (h : n <<< k < UInt32.size) :
    shifts k (UInt32.ofNat (n <<< k)) = UInt32.ofNat n := by
  induction k with
  | zero => rfl
  | succ k ih =>
    rw [Nat.shiftLeft_succ] at h ⊢
    rw [shifts, shift_ofNat_two_mul h, ih (by omega)]

/-! ## Bytes -/

/-- A byte stands apart from what is above it. -/
theorem toUInt32_xor_ofNat (b : UInt8) (n : Nat) :
    b.toUInt32 ^^^ UInt32.ofNat (n <<< 8) = UInt32.ofNat (b.toNat + 256 * n) := by
  have hb : b.toUInt32 = UInt32.ofNat b.toNat := by
    apply UInt32.toNat_inj.mp
    rw [UInt8.toNat_toUInt32, UInt32.toNat_ofNat_of_lt' (Nat.lt_trans b.toNat_lt (by decide))]
  rw [hb, ← UInt32.ofNat_xor]
  congr 1
  apply Nat.eq_of_testBit_eq
  intro i
  have hlt : b.toNat < 2 ^ 8 := b.toNat_lt
  rw [Nat.add_comm, show (256 : Nat) = 2 ^ 8 from rfl, Nat.two_pow_add_eq_or_of_lt hlt, Nat.testBit_xor,
    Nat.testBit_or, Nat.testBit_two_pow_mul, Nat.testBit_shiftLeft]
  by_cases hi : 8 ≤ i
  · rw [Nat.testBit_lt_two_pow (Nat.lt_of_lt_of_le hlt (Nat.pow_le_pow_right (by decide) hi))]
    simp
  · simp [hi]

/-- The register after some more bytes. -/
def register (r : UInt32) (bytes : Bytes) : UInt32 :=
  bytes.foldl update r

theorem register_cons (r : UInt32) (b : UInt8) (bytes : Bytes) :
    register r (b :: bytes) = register (update r b) bytes :=
  rfl

theorem register_append (r : UInt32) (bytes more : Bytes) :
    register r (bytes ++ more) = register (register r bytes) more :=
  List.foldl_append

theorem update_injective {r s : UInt32} {b : UInt8} (h : update r b = update s b) : r = s :=
  (UInt32.xor_left_inj _).mp (shifts_injective h)

/-- Registers that differ still do so after the same bytes. -/
theorem register_injective {r s : UInt32} {bytes : Bytes} (h : register r bytes = register s bytes) : r = s := by
  induction bytes generalizing r s with
  | nil => exact h
  | cons b bytes ih => exact update_injective (ih h)

/-- The number of up to four bytes fits the register. -/
theorem toNat_lt_size {bytes : Bytes} (hlen : bytes.length ≤ 4) : bytes.toNat < UInt32.size := by
  have hbound : ∀ n ≤ 4, Bytes.bound n ≤ UInt32.size := by decide
  exact Nat.lt_of_lt_of_le (Bytes.toNat_lt bytes) (hbound _ hlen)

/-- Up to four bytes are fed as one number. -/
theorem register_eq_shifts {bytes : Bytes} (hlen : bytes.length ≤ 4) (r : UInt32) :
    register r bytes = shifts (8 * bytes.length) (r ^^^ UInt32.ofNat bytes.toNat) := by
  induction bytes generalizing r with
  | nil => exact UInt32.xor_zero.symm
  | cons b rest ih =>
    have hrest : Bytes.toNat rest <<< 8 < UInt32.size := by
      rw [Nat.shiftLeft_eq, Nat.mul_comm]
      exact Nat.lt_of_le_of_lt (Nat.le_add_left _ b.toNat) (toNat_lt_size hlen)
    have hmoved := shifts_ofNat_shiftLeft hrest
    rw [List.length_cons] at hlen ⊢
    rw [register_cons, ih (by omega), update, ← hmoved, ← shifts_xor, ← shifts_add, UInt32.xor_assoc,
      toUInt32_xor_ofNat, Bytes.toNat, Nat.mul_succ, Nat.add_comm]

/-- Up to four bytes are known by what they do to a register. -/
theorem eq_of_register_eq_short {r : UInt32} {bytes bytes' : Bytes} (hlen : bytes.length = bytes'.length)
    (hle : bytes.length ≤ 4) (h : register r bytes = register r bytes') : bytes = bytes' := by
  rw [register_eq_shifts hle, register_eq_shifts (hlen ▸ hle), hlen] at h
  have hword : UInt32.ofNat bytes.toNat = UInt32.ofNat bytes'.toNat :=
    (UInt32.xor_right_inj r).mp (shifts_injective h)
  have hnumber := congrArg UInt32.toNat hword
  rw [UInt32.toNat_ofNat_of_lt' (toNat_lt_size hle), UInt32.toNat_ofNat_of_lt' (toNat_lt_size (hlen ▸ hle))] at hnumber
  rw [← Bytes.ofNat_toNat bytes, hlen, hnumber, Bytes.ofNat_toNat]

/-- Damage to four bytes in a row changes the register, wherever it stands. -/
theorem eq_of_register_eq {r : UInt32} {before mid mid' behind : Bytes} (hlen : mid.length = mid'.length)
    (hle : mid.length ≤ 4) (h : register r (before ++ mid ++ behind) = register r (before ++ mid' ++ behind)) :
    mid = mid' := by
  simp only [register_append] at h
  exact eq_of_register_eq_short hlen hle (register_injective h)

/-! ## The check behind its bytes -/

/-- The register with which a check begins. -/
def full : UInt32 := 0xFFFFFFFF

/-- The register after any bytes and their check. -/
def residue : UInt32 := shifts 32 full

theorem checksum_eq (bytes : Bytes) : checksum bytes = register full bytes ^^^ full :=
  rfl

/-- Four bytes are the check of those before them exactly if both together leave the residue. -/
theorem ofNat_toNat_eq_checksum_iff {content trailer : Bytes} (hlen : trailer.length = 4) :
    UInt32.ofNat trailer.toNat = checksum content ↔ register full (content ++ trailer) = residue := by
  rw [register_append, register_eq_shifts (Nat.le_of_eq hlen), hlen, checksum_eq, residue]
  constructor
  · intro h
    rw [h, ← UInt32.xor_assoc, UInt32.xor_self, UInt32.zero_xor]
  · intro h
    apply (UInt32.xor_right_inj (register full content)).mp
    rw [shifts_injective h, ← UInt32.xor_assoc, UInt32.xor_self, UInt32.zero_xor]

end Telemetry.Crc32

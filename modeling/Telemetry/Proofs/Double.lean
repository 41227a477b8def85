import Mathlib
import Telemetry.Double

/-!
# Differences of doubles

The only law of subtraction that the codec rests on: a finite double less itself is the positive zero, all
of whose bits are zero (`Double.sub_self`). It is what makes a double that does not change come back
exactly, and take no room.

Subtraction unpacks its operands and packs the difference. Bits that stand for a finite number are told by
their exponent, which is not all ones; packing a finite number again never makes it so
(`unpackExponent_pack_unpack`).
-/

namespace Telemetry

open Float.Model

/-- The format of a double. -/
private abbrev format : Format := .binary64

private theorem bias_eq : format.exponentBias = 1023 := rfl

private theorem fractionBits_eq : format.mantissaBitsWithoutImplicit = 52 := rfl

private theorem exponentCount_eq : 2 ^ format.exponentBits = 2048 := rfl

/-- Equal finite numbers differ by the positive zero. -/
theorem unpackedSub_self {x : UnpackedFloat} (h : x.isFinite = true) :
    UnpackedFloat.sub format x x = .zero .positive := by
  cases x with
  | infinity s => exact absurd h (by simp [UnpackedFloat.isFinite])
  | notANumber => exact absurd h (by simp [UnpackedFloat.isFinite])
  | zero s => cases s <;> rfl
  | finite s m e hm =>
    rw [UnpackedFloat.sub]
    simp only [Int.sub_self, UnpackedFloat.normalize]
    rfl

/-- Bits whose exponent is not all ones stand for a finite number. -/
theorem isFinite_unpack {b : BitVec format.numBits}
    (h : UnpackedFloat.unpackExponent b ≠ -1#_) : (UnpackedFloat.unpack format b).isFinite = true := by
  rw [UnpackedFloat.unpack, if_neg h]
  split
  · split <;> rfl
  · rfl

/-- A finite number is packed without an exponent of all ones if its exponent is in range. -/
theorem unpackExponent_pack_finite {s : UnpackedFloat.Sign} {m : Nat} {e : Int} {hm : 0 < m}
    (he : (e + 1075).toNat < 2047) :
    UnpackedFloat.unpackExponent (UnpackedFloat.pack format (.finite s m e hm)) ≠ -1#_ := by
  have hbias : e + (format.exponentBias : Int) + (format.mantissaBitsWithoutImplicit : Int) =
      e + 1075 := by
    rw [bias_eq, fractionBits_eq]
    omega
  simp only [UnpackedFloat.pack, hbias]
  rw [if_neg (by omega)]
  split
  · rw [UnpackedFloat.unpackExponent_packComponents]
    intro heq
    have hnat := congrArg BitVec.toNat heq
    rw [BitVec.toNat_ofNat] at hnat
    change _ = 2047 at hnat
    omega
  · rw [UnpackedFloat.unpackExponent_packComponents]
    decide

/-- Neither does a number that has been unpacked get one. -/
theorem unpackExponent_pack_unpack {b : BitVec format.numBits}
    (h : UnpackedFloat.unpackExponent b ≠ -1#_) :
    UnpackedFloat.unpackExponent (UnpackedFloat.pack format (UnpackedFloat.unpack format b)) ≠
      -1#_ := by
  have hexponent : (UnpackedFloat.unpackExponent b).toNat < 2047 := by
    have hne : (UnpackedFloat.unpackExponent b).toNat ≠ 2047 := fun heq =>
      h (BitVec.eq_of_toNat_eq heq)
    have hlt := (UnpackedFloat.unpackExponent b).isLt
    rw [exponentCount_eq] at hlt
    omega
  rw [UnpackedFloat.unpack, if_neg h]
  split
  next hzero =>
    have htoNat : (UnpackedFloat.unpackExponent b).toNat = 0 := by rw [hzero]; rfl
    split
    · simp only [UnpackedFloat.pack, UnpackedFloat.packedZero,
        UnpackedFloat.unpackExponent_packComponents]
      decide
    · apply unpackExponent_pack_finite
      rw [htoNat]
      decide
  next =>
    apply unpackExponent_pack_finite
    rw [bias_eq, fractionBits_eq]
    omega

/-- A finite double has no exponent of all ones. -/
theorem unpackExponent_ne {d : Double} (h : d.isFinite = true) :
    @UnpackedFloat.unpackExponent format d.bits.toBitVec ≠ -1#_ := by
  intro heq
  have hstored : d.storedExponent = 2047 := by
    have hnat := congrArg BitVec.toNat heq
    simpa [UnpackedFloat.unpackExponent, Nat.shiftRight_eq_div_pow, Double.storedExponent,
      Double.hiddenBit] using hnat
  rw [Double.isFinite, hstored] at h
  exact absurd h (by decide)

/-- A finite double less itself is the positive zero. -/
theorem Double.sub_self {d : Double} (h : d.isFinite = true) : d - d = ⟨0⟩ := by
  have hfinite : (Float.Model.ofBits d.bits).unpack.isFinite = true :=
    isFinite_unpack (unpackExponent_pack_unpack (unpackExponent_ne h))
  show (⟨(Float.Model.pack (UnpackedFloat.sub format (Float.Model.ofBits d.bits).unpack
    (Float.Model.ofBits d.bits).unpack)).toBits⟩ : Double) = ⟨0⟩
  rw [unpackedSub_self hfinite]
  rfl

end Telemetry

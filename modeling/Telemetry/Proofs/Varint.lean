import Mathlib.Algebra.Group.Nat.Defs
import Telemetry.Proofs.Except
import Telemetry.Varint

/-!
# Reading back a varint

`decode_encode`: a number comes back from its bytes, whatever follows them, and what follows is left
untouched. Ten bytes always do: nine groups leave one bit of a 64-bit number for the tenth byte, which is
why `decodeGroups_groups` asks for a number below `2 * 128 ^ more`.

A writer makes one form of each number and a reader takes others too, with groups of zeros at the end. What is a
form of a number is said without the reader (`Spells`), and so is what begins with none (`Breaks`). The reader finds
a number exactly if one of its forms stands at the front (`decode_eq_ok_iff`), and fails exactly otherwise
(`decode_eq_error_iff`).
-/

namespace Telemetry.Varint

/-- The groups of a number are read back if the last byte has no more than one bit to hold. -/
theorem decodeGroups_groups {more n : Nat} (hn : n < 2 * 128 ^ more) (rest : Bytes) :
    decodeGroups (more + 1) (groups more n ++ rest) = (.ok n, rest) := by
  induction more generalizing n with
  | zero =>
    have hsmall : n = 0 ∨ n = 1 := by omega
    rcases hsmall with rfl | rfl <;> rfl
  | succ more ih =>
    rw [groups]
    split
    next hlow =>
      have hbyte : (UInt8.ofNat n).toNat = n := UInt8.toNat_ofNat_of_lt' (by
        rw [UInt8.size]
        omega)
      have hlt : UInt8.ofNat n < 128 := by
        rw [UInt8.lt_iff_toNat_lt, hbyte]
        exact hlow
      simp [decodeGroups, hlt, hbyte]
    next hlow =>
      have hbyte : (UInt8.ofNat (n % 128 + 128)).toNat = n % 128 + 128 := UInt8.toNat_ofNat_of_lt' (by
        rw [UInt8.size]
        omega)
      have hge : ¬ UInt8.ofNat (n % 128 + 128) < 128 := by
        rw [UInt8.lt_iff_toNat_lt, hbyte]
        simp
      have hhigh : n / 128 < 2 * 128 ^ more := by
        rw [Nat.pow_succ] at hn
        omega
      rw [List.cons_append, decodeGroups, if_neg hge, ih hhigh]
      simp only [hbyte, Prod.mk.injEq, Except.ok.injEq, and_true]
      omega

/-- A number comes back from its bytes, whatever follows them. -/
@[simp] theorem decode_encode (n : UInt64) (rest : Bytes) :
    decode (encode n ++ rest) = (.ok n, rest) := by
  have hn : n.toNat < 2 * 128 ^ 9 := n.toNat_lt
  have hgroups := decodeGroups_groups hn rest
  simp only [decode, encode, maxLength] at hgroups ⊢
  rw [hgroups]
  simp

/-! ## Forms of a number -/

/-- Bytes stand for a number in groups of seven bits, the least significant first: the last byte is below 128, and
each byte before it says that another follows. -/
inductive StandsFor : Bytes → Nat → Prop
  | last {b : UInt8} (hb : b < 128) : StandsFor [b] b.toNat
  | more {b : UInt8} {rest : Bytes} {n : Nat} (hb : ¬ b < 128) (hrest : StandsFor rest n) :
    StandsFor (b :: rest) (b.toNat % 128 + 128 * n)

/-- Bytes are a form of a number, not always the shortest one. -/
structure Spells (bytes : Bytes) (n : UInt64) : Prop where
  standsFor : StandsFor bytes n.toNat
  length_le : bytes.length ≤ maxLength

/-- Bytes of which at most `left` may belong to a number begin with none: they end where another byte should follow,
or the last byte that may belong to it has more than the one bit there is room for. -/
inductive Breaks (left : Nat) : Bytes → CorruptionFault → Prop
  | truncated {bytes : Bytes} (hlength : bytes.length < left) (hmore : ∀ b ∈ bytes, ¬ b < 128) :
    Breaks left bytes .varintTruncated
  | overflow {front rest : Bytes} {b : UInt8} (hlength : front.length + 1 = left) (hmore : ∀ b ∈ front, ¬ b < 128)
    (hb : 1 < b) : Breaks left (front ++ b :: rest) .varintOverflow

/-- A byte that says that another follows is the lowest group of the number. -/
theorem decodeGroups_cons {b : UInt8} (hb : ¬ b < 128) (left : Nat) (rest : Bytes) :
    decodeGroups (left + 1) (b :: rest) =
      ((decodeGroups left rest).1.map fun high => b.toNat % 128 + 128 * high, (decodeGroups left rest).2) := by
  rw [decodeGroups, if_neg hb]
  rcases decodeGroups left rest with ⟨_ | high, rest'⟩ <;> rfl

theorem decodeGroups_eq_ok_iff {more n : Nat} {bytes rest : Bytes} :
    decodeGroups (more + 1) bytes = (.ok n, rest) ↔
      ∃ front, bytes = front ++ rest ∧ StandsFor front n ∧ front.length ≤ more + 1 ∧ n < 2 * 128 ^ more := by
  constructor
  · intro h
    induction more generalizing bytes n with
    | zero =>
      cases bytes with
      | nil => simp [decodeGroups] at h
      | cons b tail =>
        by_cases hb : b < 128
        · rw [decodeGroups, if_pos hb] at h
          split at h
          · simp at h
          · next hsmall =>
            obtain ⟨hn, rfl⟩ := Prod.mk.inj h
            obtain rfl := Except.ok.inj hn
            have hle : ¬ 1 < b.toNat := fun hlt => hsmall ⟨rfl, UInt8.lt_iff_toNat_lt.mpr hlt⟩
            exact ⟨[b], rfl, .last hb, Nat.le_refl _, by omega⟩
        · simp [decodeGroups, hb] at h
    | succ more ih =>
      cases bytes with
      | nil => simp [decodeGroups] at h
      | cons b tail =>
        by_cases hb : b < 128
        · rw [decodeGroups, if_pos hb, if_neg (by simp)] at h
          obtain ⟨hn, rfl⟩ := Prod.mk.inj h
          obtain rfl := Except.ok.inj hn
          have hlt : b.toNat < 128 := UInt8.lt_iff_toNat_lt.mp hb
          have hpos : 0 < 128 ^ more := Nat.pow_pos (by decide)
          exact ⟨[b], rfl, .last hb, by simp, by rw [Nat.pow_succ]; omega⟩
        · rw [decodeGroups_cons hb] at h
          obtain ⟨hn, hrest⟩ := Prod.mk.inj h
          obtain ⟨high, hhigh, rfl⟩ := exists_of_map_eq_ok hn
          obtain ⟨front, rfl, hfront, hlength, hlt⟩ := ih (Prod.ext hhigh hrest)
          refine ⟨b :: front, rfl, .more hb hfront, ?_, ?_⟩
          · rw [List.length_cons]
            omega
          · rw [Nat.pow_succ]
            omega
  · rintro ⟨front, rfl, hfront, hlength, hlt⟩
    induction hfront generalizing more with
    | @last b hb =>
      have hsmall : ¬ (more = 0 ∧ 1 < b) := by
        rintro ⟨rfl, hgt⟩
        have hgt' := UInt8.lt_iff_toNat_lt.mp hgt
        rw [Nat.pow_zero] at hlt
        change 1 < b.toNat at hgt'
        omega
      rw [List.singleton_append, decodeGroups, if_pos hb, if_neg hsmall]
    | @more b front n hb hfront ih =>
      cases more with
      | zero =>
        -- a byte that another follows is not the last that may belong to the number
        cases hfront <;> simp at hlength
      | succ more =>
        rw [Nat.pow_succ] at hlt
        rw [List.cons_append, decodeGroups_cons hb, ih (by simpa using hlength) (by omega)]
        rfl

/-- A number is found exactly if a form of it stands at the front; what follows it is left. -/
theorem decode_eq_ok_iff {n : UInt64} {bytes rest : Bytes} :
    decode bytes = (.ok n, rest) ↔ ∃ front, bytes = front ++ rest ∧ Spells front n := by
  have hbound : 2 * 128 ^ 9 = UInt64.size := by decide
  constructor
  · intro h
    rw [decode] at h
    split at h
    · next m rest' hgroups =>
      obtain ⟨hn, rfl⟩ := Prod.mk.inj h
      obtain ⟨front, rfl, hfront, hlength, hlt⟩ := decodeGroups_eq_ok_iff.mp hgroups
      rw [hbound] at hlt
      have hm : n.toNat = m := Except.ok.inj hn ▸ UInt64.toNat_ofNat_of_lt' hlt
      exact ⟨front, rfl, hm ▸ hfront, hlength⟩
    · simp at h
  · rintro ⟨front, rfl, hfront, hlength⟩
    have hlt : n.toNat < 2 * 128 ^ 9 := hbound ▸ n.toNat_lt
    have hgroups : decodeGroups maxLength (front ++ rest) = (.ok n.toNat, rest) :=
      decodeGroups_eq_ok_iff.mpr ⟨front, rfl, hfront, hlength, hlt⟩
    rw [decode, hgroups]
    simp

/-- What is written for a number is a form of it. -/
theorem spells_encode (n : UInt64) : Spells (encode n) n := by
  obtain ⟨front, hfront, hspells⟩ := decode_eq_ok_iff.mp (decode_encode n [])
  rw [List.append_nil, List.append_nil] at hfront
  exact hfront ▸ hspells

/-! ## Bytes that begin with no number -/

theorem decodeGroups_eq_error_iff {more : Nat} {bytes : Bytes} {fault : CorruptionFault} :
    (decodeGroups (more + 1) bytes).1 = .error fault ↔ Breaks (more + 1) bytes fault := by
  constructor
  · intro h
    induction more generalizing bytes with
    | zero =>
      cases bytes with
      | nil =>
        obtain rfl := Except.error.inj h
        exact .truncated (by simp) (by simp)
      | cons b rest =>
        by_cases hb : b < 128
        · rw [decodeGroups, if_pos hb] at h
          split at h
          · next hlarge =>
            obtain rfl := Except.error.inj h
            have hbreaks : Breaks 1 ([] ++ b :: rest) .varintOverflow := .overflow rfl (by simp) hlarge.2
            exact hbreaks
          · simp at h
        · have hover : fault = .varintOverflow := by
            simpa [decodeGroups, hb, eq_comm] using h
          have hlarge : 1 < b := by
            rw [UInt8.lt_iff_toNat_lt] at hb ⊢
            change ¬ b.toNat < 128 at hb
            change 1 < b.toNat
            omega
          have hbreaks : Breaks 1 ([] ++ b :: rest) .varintOverflow := .overflow rfl (by simp) hlarge
          exact hover ▸ hbreaks
    | succ more ih =>
      cases bytes with
      | nil =>
        obtain rfl := Except.error.inj h
        exact .truncated (by simp) (by simp)
      | cons b rest =>
        by_cases hb : b < 128
        · rw [decodeGroups, if_pos hb, if_neg (by simp)] at h
          simp at h
        · rw [decodeGroups_cons hb] at h
          cases ih (eq_error_of_map h) with
          | truncated hlength hmore =>
            exact .truncated (by simpa using hlength) (List.forall_mem_cons.mpr ⟨hb, hmore⟩)
          | @overflow front rest b' hlength hmore hlarge =>
            rw [← List.cons_append]
            exact .overflow (by simpa using hlength) (List.forall_mem_cons.mpr ⟨hb, hmore⟩) hlarge
  · rintro (⟨hlength, hmore⟩ | ⟨hlength, hmore, hlarge⟩)
    · generalize more + 1 = left at hlength
      induction bytes generalizing left with
      | nil =>
        cases left with
        | zero => simp at hlength
        | succ left => rfl
      | cons b bytes ih =>
        obtain ⟨hb, hrest⟩ := List.forall_mem_cons.mp hmore
        cases left with
        | zero => simp at hlength
        | succ left =>
          rw [decodeGroups_cons hb, ih hrest left (by simpa using hlength)]
          rfl
    · next front rest b =>
      rw [← hlength]
      clear hlength
      induction front with
      | nil =>
        by_cases hb : b < 128
        · rw [List.nil_append, List.length_nil, decodeGroups, if_pos hb, if_pos ⟨rfl, hlarge⟩]
        · rw [List.nil_append, List.length_nil, decodeGroups_cons hb]
          rfl
      | cons b' front ih =>
        obtain ⟨hb, hrest⟩ := List.forall_mem_cons.mp hmore
        rw [List.cons_append, List.length_cons, decodeGroups_cons hb, ih hrest]
        rfl

/-- No number is found exactly if the bytes begin with none. -/
theorem decode_eq_error_iff {bytes : Bytes} {fault : CorruptionFault} :
    (decode bytes).1 = .error fault ↔ Breaks maxLength bytes fault := by
  have hgroups : (decodeGroups maxLength bytes).1 = .error fault ↔ Breaks maxLength bytes fault :=
    decodeGroups_eq_error_iff
  rw [← hgroups, decode]
  rcases decodeGroups maxLength bytes with ⟨_ | n, rest⟩ <;> simp

end Telemetry.Varint

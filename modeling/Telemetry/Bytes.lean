/-!
# Byte strings

Everything this library writes or reads is a list of bytes: documents, chunk payloads, records and
whole streams. A list keeps the laws short, since a format is a concatenation of its parts and a reader
takes a part off the front and hands on the rest.

## Shape of the readers

`Bytes.split? n` takes exactly `n` bytes off the front, or fails; every fixed-width item of the
formats goes through it. `Bytes.readWord?` is the same step followed by `Bytes.toNat`, the inverse of
`Bytes.ofNat` (`toNat_ofNat`), least significant byte first.
-/

namespace Telemetry

/-- A string of bytes. -/
abbrev Bytes := List UInt8

namespace Bytes

/-! ## Little-endian words -/

/-- The `width` bytes of `n`, least significant first; bits above `8 * width` are dropped. -/
def ofNat : (width n : Nat) → Bytes
  | 0, _ => []
  | width + 1, n => UInt8.ofNat n :: ofNat width (n / 256)

/-- How many numbers have `width` bytes: 256 to the power of `width`. -/
def bound : (width : Nat) → Nat
  | 0 => 1
  | width + 1 => 256 * bound width

/-- The number with the given bytes, least significant first. -/
def toNat : Bytes → Nat
  | [] => 0
  | b :: rest => b.toNat + 256 * toNat rest

@[simp] theorem length_ofNat (width n : Nat) : (ofNat width n).length = width := by
  induction width generalizing n with
  | zero => rfl
  | succ width ih => simp [ofNat, ih]

/-- Reading back what was written loses nothing but the bits that do not fit. -/
theorem toNat_ofNat (width n : Nat) : toNat (ofNat width n) = n % bound width := by
  induction width generalizing n with
  | zero => simp [ofNat, toNat, bound, Nat.mod_one]
  | succ width ih =>
    have h : (UInt8.ofNat n).toNat = n % 256 := by simp
    rw [ofNat, toNat, ih, h, bound, Nat.mod_mul]

/-- A number that fits is read back as it was. -/
theorem toNat_ofNat_of_lt {width n : Nat} (h : n < bound width) : toNat (ofNat width n) = n := by
  rw [toNat_ofNat, Nat.mod_eq_of_lt h]

theorem toNat_lt (bytes : Bytes) : toNat bytes < bound bytes.length := by
  induction bytes with
  | nil => simp [toNat, bound]
  | cons b rest ih =>
    have hb : b.toNat < 256 := b.toNat_lt
    rw [toNat, List.length_cons, bound]
    omega

/-- Any bytes are the written form of the number they stand for. -/
theorem ofNat_toNat (bytes : Bytes) : ofNat bytes.length (toNat bytes) = bytes := by
  induction bytes with
  | nil => rfl
  | cons b rest ih =>
    have hb : b.toNat < 256 := b.toNat_lt
    rw [List.length_cons, toNat, ofNat]
    congr 1
    · apply UInt8.toNat_inj.mp
      simp only [UInt8.toNat_ofNat']
      omega
    · rw [Nat.add_mul_div_left _ _ (by decide), Nat.div_eq_of_lt hb, Nat.zero_add, ih]

/-! ## Taking from the front -/

/-- The first `n` bytes and what follows them; `none` if there are fewer than `n`. -/
def split? (n : Nat) (bytes : Bytes) : Option (Bytes × Bytes) :=
  let (front, rest) := bytes.splitAt n
  if front.length = n then some (front, rest) else none

/-- The number in the first `width` bytes and what follows them. -/
def readWord? (width : Nat) (bytes : Bytes) : Option (Nat × Bytes) :=
  (split? width bytes).map fun (front, rest) => (toNat front, rest)

theorem split?_eq (n : Nat) (bytes : Bytes) :
    split? n bytes = if n ≤ bytes.length then some (bytes.take n, bytes.drop n) else none := by
  simp only [split?, List.splitAt_eq, List.length_take]
  by_cases h : n ≤ bytes.length
  · simp [h]
  · rw [if_neg, if_neg h]
    omega

@[simp] theorem split?_append (front rest : Bytes) :
    split? front.length (front ++ rest) = some (front, rest) := by
  simp [split?_eq]

/-- Splitting succeeds exactly on a front of the asked length. -/
theorem split?_eq_some_iff {n : Nat} {bytes front rest : Bytes} :
    split? n bytes = some (front, rest) ↔ bytes = front ++ rest ∧ front.length = n := by
  constructor
  · intro h
    rw [split?_eq] at h
    split at h
    · next hn =>
      obtain ⟨rfl, rfl⟩ := Prod.mk.inj (Option.some.inj h)
      simp [hn]
    · simp at h
  · rintro ⟨rfl, rfl⟩
    exact split?_append front rest

@[simp] theorem readWord?_append {width n : Nat} (h : n < bound width) (rest : Bytes) :
    readWord? width (ofNat width n ++ rest) = some (n, rest) := by
  have := split?_append (ofNat width n) rest
  rw [length_ofNat] at this
  simp [readWord?, this, toNat_ofNat_of_lt h]

/-! ## Hexadecimal text -/

/-- The digit of a number below sixteen. -/
def hexDigit (n : Nat) : Char :=
  if n < 10 then Char.ofNat (48 + n) else Char.ofNat (87 + n)

/-- Two lower-case digits a byte, in order. -/
def hexDigits (bytes : Bytes) : List Char :=
  bytes.flatMap fun b => [hexDigit (b.toNat / 16), hexDigit (b.toNat % 16)]

/-- The bytes as lower-case hexadecimal text. -/
def hex (bytes : Bytes) : String :=
  String.ofList (hexDigits bytes)

end Bytes

/-- The bytes of a text. -/
def textBytes (s : String) : Bytes :=
  s.toByteArray.data.toList

end Telemetry

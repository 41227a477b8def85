import Telemetry.Payload

/-!
# Reading back a compressed payload

What was compressed comes back if it is within the reader's limit (`Payload.decompress_compress`), whoever has
compressed it (`Payload.decompress_of_deflates`).
-/

namespace Telemetry.Payload

/-- A payload is compressed unless its length does not fit in front. -/
theorem compress_eq {payload : Bytes} (h : payload.length < UInt32.size) (z : Compression) :
    compress z payload = .ok (Bytes.ofNat lengthSize payload.length ++ z.stream payload) := by
  rw [compress, if_pos h]

theorem length_lt_of_compress {payload body : Bytes} {z : Compression} (h : compress z payload = .ok body) :
    payload.length < UInt32.size := by
  rw [compress] at h
  split at h
  · assumption
  · simp at h

/-- What was compressed comes back, whoever has compressed it, if it is within the reader's limit. -/
theorem decompress_of_deflates {payload stream : Bytes} (h : Zlib.Deflates stream payload)
    (hlimit : payload.length ≤ maxPayloadSize) :
    decompress (Bytes.ofNat lengthSize payload.length ++ stream) = .ok payload := by
  have hsize : payload.length < UInt32.size := Nat.lt_of_le_of_lt hlimit (by decide)
  have hword : Bytes.readWord? lengthSize (Bytes.ofNat lengthSize payload.length ++ stream) =
      some (payload.length, stream) := Bytes.readWord?_append hsize _
  simp only [decompress, hword, h.fault?_eq, h.content_eq, if_true]
  rw [if_neg (by omega)]

/-- What was compressed comes back, if it is within the reader's limit. -/
theorem decompress_compress {payload body : Bytes} {z : Compression}
    (hlimit : payload.length ≤ maxPayloadSize) (h : compress z payload = .ok body) :
    decompress body = .ok payload := by
  rw [compress_eq (Nat.lt_of_le_of_lt hlimit (by decide))] at h
  obtain rfl := Except.ok.inj h
  exact decompress_of_deflates (z.deflates payload) hlimit

/-- A payload that a reader accepts declares a length within the reader's limit. -/
theorem exists_of_decompress {bytes payload : Bytes} (h : decompress bytes = .ok payload) :
    ∃ declared stream, bytes.readWord? lengthSize = some (declared, stream) ∧ declared ≤ maxPayloadSize := by
  rw [decompress] at h
  split at h
  · simp at h
  · next declared stream hword =>
    split at h
    · simp at h
    · next hlimit => exact ⟨declared, stream, hword, Nat.le_of_not_lt hlimit⟩

/-- What was taken out of a compressed form is within the limit of a reader. -/
theorem length_le_of_decompress {bytes payload : Bytes} (h : decompress bytes = .ok payload) :
    payload.length ≤ maxPayloadSize := by
  rw [decompress] at h
  split at h
  · simp at h
  · next declared stream _ =>
    split at h
    · simp at h
    · next hlimit =>
      dsimp only at h
      split at h
      · split at h <;> simp at h
      · split at h
        · next hlength =>
          rw [← Except.ok.inj h, hlength]
          exact Nat.le_of_not_lt hlimit
        · simp at h

end Telemetry.Payload

import Telemetry.Record
import Telemetry.Source

/-!
# Records from a source

The next record of a stream is read in two requests, the length and the frame. A stream may end between
records and nowhere else. Nothing is asked of the source beyond the record, so that after it the source
stands at the first byte of the next one.
-/

namespace Telemetry.Record

/-- The next record of a source, or nothing at the end of the stream. -/
def readFrom (s : Source) : Except Error (Option Record) × Source :=
  match s.fill lengthSize with
  | (.short [], s) => (.ok none, s)
  | (.short _, s) => (.error (.invalidFormat .recordHeaderTruncated), s)
  | (.failed words, s) => (.error (.io words), s)
  | (.full header, s) =>
    let length := Bytes.toNat header
    if maxRecordSize < length then (.error (.invalidFormat (.recordTooLong length)), s)
    else
      match s.fill length with
      | (.short _, s) => (.error (.invalidFormat .recordIncomplete), s)
      | (.failed words, s) => (.error (.io words), s)
      | (.full frame, s) =>
        match ofFrame frame with
        | .ok r => (.ok (some r), s)
        | .error e => (.error e, s)

/-- A record that is read leaves the source shorter. -/
theorem rest_lt_of_readFrom {s t : Source} {r : Record} (h : readFrom s = (.ok (some r), t)) :
    t.rest.length < s.rest.length := by
  unfold readFrom at h
  split at h
  · simp at h
  · simp at h
  · simp at h
  next header u hheader =>
    dsimp only at h
    split at h
    · simp at h
    · split at h
      · simp at h
      · simp at h
      next frame v hframe =>
        split at h
        · obtain ⟨-, rfl⟩ := Prod.mk.inj h
          obtain ⟨hlen, hrest⟩ := Source.fill_full hheader
          obtain ⟨-, hrest'⟩ := Source.fill_full hframe
          rw [hrest, hrest']
          simp only [List.length_append, hlen, lengthSize]
          omega
        · simp at h

end Telemetry.Record

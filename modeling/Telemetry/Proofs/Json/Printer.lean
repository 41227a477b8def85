import Telemetry.Json.Printer

/-!
# A JSON text is a line

The text of a value has no line feed in it: a string escapes those it has, and nothing else writes one.
-/

namespace Telemetry.Json

theorem newline_notMem_naturalText (n : Nat) : '\n' ∉ naturalText n := by
  intro h
  exact absurd (Nat.isDigit_of_mem_toDigits (by decide) (by decide) h) (by decide)

theorem newline_notMem_integerText (n : Int) : '\n' ∉ integerText n := by
  have hdigits := newline_notMem_naturalText n.natAbs
  rw [integerText]
  split <;> simp [hdigits]

theorem newline_notMem_decimalText (d : Decimal) : '\n' ∉ decimalText d := by
  have hdigits := newline_notMem_naturalText d.digits
  have hfront (count : Nat) : '\n' ∉ (naturalText d.digits).take count := fun h => hdigits (List.mem_of_mem_take h)
  have hback (count : Nat) : '\n' ∉ (naturalText d.digits).drop count := fun h => hdigits (List.mem_of_mem_drop h)
  rw [decimalText]
  dsimp only
  split
  · split <;> simp [hdigits, hfront, hback]
  · split
    · simp [hdigits]
    · have hexponent := newline_notMem_naturalText (d.exponent + (naturalText d.digits).length - 1).natAbs
      have htail : '\n' ∉ (naturalText d.digits).tail := fun h => hdigits (List.mem_of_mem_tail h)
      split <;> split <;> simp [hfront, htail, hexponent]

theorem newline_notMem_doubleText (d : Double) : '\n' ∉ doubleText d := by
  have hmagnitude : '\n' ∉ (if d.isZero then ['0', '.', '0'] else decimalText (Decimal.shortest d)) := by
    split
    · decide
    · exact newline_notMem_decimalText _
  rw [doubleText]
  split
  · decide
  · dsimp only
    split
    · exact List.not_mem_cons_of_ne_of_not_mem (by decide) hmagnitude
    · exact hmagnitude

theorem newline_notMem_escaped (c : Char) : '\n' ∉ escaped c := by
  have hhex : ∀ n < 16, '\n' ≠ Bytes.hexDigit n := by decide
  by_cases hnewline : c = '\n'
  · rw [hnewline]
    decide
  · rw [escaped]
    -- the other characters that have a name of their own
    iterate 6
      split
      · decide
    split
    · have hhigh := hhex (c.toNat / 16) (by omega)
      have hlow := hhex (c.toNat % 16) (by omega)
      simp [hhigh, hlow]
    · simpa using Ne.symm hnewline

/-- A string escapes line feeds. -/
theorem newline_notMem_quoted (s : String) : '\n' ∉ quoted s := by
  simp [quoted, newline_notMem_escaped]

mutual

/-- The text of a value is a line. -/
theorem newline_notMem_chars : ∀ j : Json, '\n' ∉ chars j
  | .null | .boolean true | .boolean false | .array [] | .object [] => by decide
  | .integer n => newline_notMem_integerText n
  | .double d => newline_notMem_doubleText d
  | .text s => newline_notMem_quoted s
  | .array (v :: rest) => by
    simp [chars, newline_notMem_chars v, newline_notMem_charsOfItems rest]
  | .object ((key, v) :: rest) => by
    simp [chars, newline_notMem_quoted key, newline_notMem_chars v, newline_notMem_charsOfMembers rest]

/-- The text of items is on a line. -/
theorem newline_notMem_charsOfItems : ∀ items : List Json, '\n' ∉ charsOfItems items
  | [] => by decide
  | v :: rest => by
    simp [charsOfItems, newline_notMem_chars v, newline_notMem_charsOfItems rest]

/-- The text of members is on a line. -/
theorem newline_notMem_charsOfMembers : ∀ members : List (String × Json), '\n' ∉ charsOfMembers members
  | [] => by decide
  | (key, v) :: rest => by
    simp [charsOfMembers, newline_notMem_quoted key, newline_notMem_chars v, newline_notMem_charsOfMembers rest]

end

end Telemetry.Json

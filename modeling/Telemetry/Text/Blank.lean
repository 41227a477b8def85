/-!
# White space

The white space of Unicode, as a table. A text of nothing but white space holds nothing.
-/

namespace Telemetry

/-- The ranges of characters with the property White_Space. -/
def blankRanges : List (Nat × Nat) :=
  [(0x0009, 0x000D), (0x0020, 0x0020), (0x0085, 0x0085), (0x00A0, 0x00A0), (0x1680, 0x1680),
   (0x2000, 0x200A), (0x2028, 0x2029), (0x202F, 0x202F), (0x205F, 0x205F), (0x3000, 0x3000)]

/-- Whether a character is white space. -/
def isBlank (c : Char) : Bool :=
  blankRanges.any fun (low, high) => low ≤ c.toNat && c.toNat ≤ high

/-- Whether a text is nothing but white space. -/
def isBlankText (s : String) : Bool :=
  s.toList.all isBlank

end Telemetry

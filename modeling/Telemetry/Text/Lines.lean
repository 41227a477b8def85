import Telemetry.Bytes

/-!
# Lines

A line ends at a line feed, and a carriage return right before it belongs to the end. What stands after
the last line feed is a line if it is not empty.
-/

namespace Telemetry

/-- A line without the carriage return at its end; the bytes come last first. -/
def lineOfReversed : Bytes → Bytes
  | 13 :: reversed => reversed.reverse
  | reversed => reversed.reverse

/-- The lines of the bytes, when those in hand, last first, begin the first of them. -/
def linesAfter (reversed : Bytes) : Bytes → List Bytes
  | [] => if reversed.isEmpty then [] else [reversed.reverse]
  | b :: rest =>
    if b = 10 then lineOfReversed reversed :: linesAfter [] rest
    else linesAfter (b :: reversed) rest

/-- The lines of the bytes. -/
def linesOf (bytes : Bytes) : List Bytes :=
  linesAfter [] bytes

end Telemetry

import Telemetry.Zlib.Inflate

/-!
# How far a reader gets

A reader that wants a certain number of bytes does not inflate a stream to its end, but it does not stop
at the last byte it wants either. It fetches the stream in pieces and inflates into a window, and goes on
until the next step needs another piece, or a byte that the full window cannot take. Only then does it
look whether more is wanted. A fault met on the way counts, whatever had been wanted, and so does the end
of a stream that ends too early: it is met by fetching a piece when there is none.

So there is a number of bytes that a reader must want more than, for a fault to be met: what had been
inflated when the reader last looked before the fault (`Inflation.reach`).

## Pieces and windows

A reader looks each time a window has been filled and more is to be written, and each time a piece has
been used up and more is to be read. The two can be one look: where a copy does not fit the window and
the last byte of the piece has been begun, the next piece is fetched before the rest of the copy is
written, not after it (`nextFetch`).
-/

namespace Telemetry.Zlib

/-- How many bytes of a stream are fetched at a time. -/
def fetchSize : Nat := 0x8000

/-- How many bytes of content the window takes before it begins again. -/
def windowSize : Nat := 0x8000

/-- How much content there is when the window that holds the last of `written` bytes is begun. -/
def windowStart (written : Nat) : Nat :=
  (written - 1) / windowSize * windowSize

/-- How much content there is when more is fetched than the front of a stream, which inflates to `written`
bytes. That is all of them, unless the window was full before and the last byte of the front had been
begun by then; no more than the rest of that byte says is written afterwards, so it was the last time. -/
def nextFetch (front : Bytes) (written : Nat) : Nat :=
  let start := windowStart written
  if start = 0 then written
  else if (inflate front.dropLast).room ≤ start then start
  else written

/-- How much content there is when a piece is fetched for the last time before a fault, if none is
fetched in vain. -/
def lastFetch (stream : Bytes) : Nat :=
  ((List.range (stream.length / fetchSize + 1)).reverse.findSome? fun pieces =>
    let front := stream.take (pieces * fetchSize)
    let i := inflate front
    if i.fault? = some .incomplete then some (nextFetch front i.content.length) else none).getD 0

/-- How much content there is when a reader looks for the last time, before it meets the fault of the
stream. A stream that ends too early is at fault where more of it is fetched than there is. -/
def Inflation.reach (stream : Bytes) (i : Inflation) : Nat :=
  if i.fault? = some .incomplete then nextFetch stream i.content.length
  else max (windowStart i.content.length) (lastFetch stream)

end Telemetry.Zlib

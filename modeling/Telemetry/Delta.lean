import Std.Data.TreeMap
import Telemetry.Varint

/-!
# Delta streams

The steps of every metric of a chunk, one column a metric. A column is written as varints of the
deltas' bits, a run of zeros as a zero and the length of the run less one. Runs never reach into the
next column.

## The buffer

While a chunk is open its deltas live in a flat buffer laid out column by column, each column as long
as the chunk may become, so that the delta of a metric has a fixed place (`offset`) from the first
sample on. Slots that have not been written hold zero and take no room.

## Two sides

`encodeColumn` counts zeros as it goes and writes a run when it ends; `decodeColumn` reads one token at
a time and expands it. A token is a non-zero varint, one delta, or a zero and a varint `r`, which is
`r + 1` zeros.
-/

namespace Telemetry.Delta

/-! ## The buffer -/

/-- The slot of a metric's delta for a sample, in columns of `stride` slots. -/
def offset (stride sample metric : Nat) : Nat :=
  metric * stride + sample

/-- The most slots that can be addressed: each takes eight bytes, and there are fewer than half as many as a word counts. -/
def maxSlots : Nat := (UInt64.size / 2 - 1) / 8

/-- A flat buffer of deltas: the number of its slots, and those that have been written. -/
structure Buffer where
  size : Nat
  written : Std.TreeMap Nat Int64

namespace Buffer

/-- A buffer with the given number of slots, all zero. -/
def zeros (size : Nat) : Buffer :=
  ⟨size, ∅⟩

/-- The delta in a slot. -/
def get (b : Buffer) (slot : Nat) : Int64 :=
  b.written.getD slot 0

/-- The buffer with a delta put into a slot; there is no slot beyond the size. -/
def set (b : Buffer) (slot : Nat) (delta : Int64) : Buffer :=
  if slot < b.size then { b with written := b.written.insert slot delta } else b

/-- A buffer that holds the given deltas. -/
def ofList (deltas : List Int64) : Buffer :=
  ⟨deltas.length, Std.TreeMap.ofList (deltas.zipIdx.map fun (d, slot) => (slot, d))⟩

end Buffer

/-! ## Writing -/

/-- A run of zeros. -/
def zeroRun (length : Nat) : Bytes :=
  if length = 0 then [] else Varint.encode 0 ++ Varint.encode (UInt64.ofNat (length - 1))

/-- A column that `zeros` zeros precede. -/
def encodeFrom (zeros : Nat) : List Int64 → Bytes
  | [] => zeroRun zeros
  | d :: rest =>
    if d = 0 then encodeFrom (zeros + 1) rest
    else zeroRun zeros ++ Varint.encode d.toUInt64 ++ encodeFrom 0 rest

/-- One column. -/
def encodeColumn (deltas : List Int64) : Bytes :=
  encodeFrom 0 deltas

/-- The first `samples` deltas of a metric, out of slots in columns of `stride`. -/
def column (slots : Nat → Int64) (stride samples metric : Nat) : List Int64 :=
  (List.range samples).map fun sample => slots (offset stride sample metric)

/-- The first `samples` deltas of every metric, column by column. -/
def encode (slots : Nat → Int64) (stride metrics samples : Nat) : Bytes :=
  (List.range metrics).flatMap fun metric => encodeColumn (column slots stride samples metric)

/-! ## Reading -/

/-- The `count` deltas of column `metric`, and what follows them. A run that reaches past the end of
the column is refused. -/
def decodeColumn (metric count : Nat) (bytes : Bytes) :
    Except CorruptionFault (List Int64 × Bytes) :=
  if _ : count = 0 then .ok ([], bytes)
  else
    match Varint.decode bytes with
    | (.error fault, _) => .error fault
    | (.ok delta, rest) =>
      if delta = 0 then
        match Varint.decode rest with
        | (.error fault, _) => .error fault
        | (.ok run, rest) =>
          let zeros := run.toNat + 1
          if count < zeros then .error (.zeroRun metric (zeros - count))
          else
            match decodeColumn metric (count - zeros) rest with
            | .error fault => .error fault
            | .ok (deltas, rest) => .ok (List.replicate zeros 0 ++ deltas, rest)
      else
        match decodeColumn metric (count - 1) rest with
        | .error fault => .error fault
        | .ok (deltas, rest) => .ok (delta.toInt64 :: deltas, rest)
termination_by count
decreasing_by all_goals omega

/-- The columns from number `metric` on, `left` of them. -/
def decodeColumns (count : Nat) : (left metric : Nat) → Bytes →
    Except CorruptionFault (List (List Int64) × Bytes)
  | 0, _, bytes => .ok ([], bytes)
  | left + 1, metric, bytes =>
    match decodeColumn metric count bytes with
    | .error fault => .error fault
    | .ok (deltas, rest) =>
      match decodeColumns count left (metric + 1) rest with
      | .error fault => .error fault
      | .ok (columns, rest) => .ok (deltas :: columns, rest)

/-- `metrics` columns of `deltas` deltas each, and what follows them. The counts are held against the
limit of a chunk before anything is read, since a few bytes can describe a long run. -/
def decode (metrics deltas : Nat) (bytes : Bytes) :
    Except CorruptionFault (List (List Int64) × Bytes) :=
  if metrics * deltas ≤ maxChunkValues ∧ deltas ≤ maxChunkValues then
    decodeColumns deltas metrics 0 bytes
  else .error (.tooManyValues metrics deltas)

/-! ## Running sums -/

/-- The values of a series that starts at `start` and takes the given steps: the start, and after each
step the wrapping sum so far. -/
def runningSums (start : Int64) (deltas : List Int64) : Array Int64 :=
  (deltas.foldl (fun (last, sums) d => (last + d, sums.push (last + d))) (start, #[start])).2

end Telemetry.Delta

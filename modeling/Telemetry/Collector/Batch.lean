import Telemetry.Collector.Window

/-!
# Chunks of a fixed number of samples

A batch begins a new window whenever the open one is full, so that all chunks but the last hold the same
number of samples. The metadata document stands ahead of the first chunk only. Within a chunk a change of
schema is an error.
-/

namespace Telemetry

/-- Windows of a fixed size, at least one sample each: those that are full, in order, and the one that takes
samples. -/
structure Batch where
  maxSamples : Nat
  compression : Compression
  closed : Array Window
  current : Window

namespace Batch

/-- A window for the given number of samples. -/
def window (maxSamples : Nat) (z : Compression) : Window :=
  .empty (maxSamples - 1) z

/-- A batch without samples. Chunks hold at least one sample, also when none are asked for. -/
def empty (maxSamples : Nat) (z : Compression) : Batch :=
  { maxSamples := max maxSamples 1, compression := z, closed := #[], current := window (max maxSamples 1) z }

/-- All windows, in order. -/
def windows (b : Batch) : List Window :=
  b.closed.toList ++ [b.current]

/-- The number of slots of the longest delta buffer. -/
def longestBuffer (b : Batch) : Nat :=
  (b.windows.map fun w => w.deltas.size).foldr max 0

/-- How much the batch holds. -/
def info (b : Batch) : Info :=
  .sum (b.windows.map Window.info)

/-- The batch without samples and metadata. -/
def reset (b : Batch) : Batch :=
  { b with closed := #[], current := window b.maxSamples b.compression }

/-- The batch with a metadata document ahead of its first window. -/
def setMetadata (d : Document) (b : Batch) : Batch :=
  if b.closed.isEmpty then { b with current := b.current.setMetadata d }
  else { b with closed := b.closed.modify 0 (Window.setMetadata d) }

/-- The batch with a new window open if the open one is full. -/
def roll (b : Batch) : Batch :=
  if b.maxSamples ≤ b.current.info.samples then
    { b with closed := b.closed.push b.current, current := window b.maxSamples b.compression }
  else b

/-- Take a sample into the open window, or into a new one if that is full. -/
def add (sample : Document) (b : Batch) : Except Error Unit × Batch :=
  -- a window without samples takes any sample, so none stays empty
  let b := b.roll
  let (result, current) := b.current.add sample
  (result, { b with current })

/-- The records of all windows, in order. -/
def resolve (b : Batch) : Except Error Bytes :=
  (b.windows.mapM Window.resolve).map List.flatten

instance : Collector Batch where
  setMetadata := setMetadata
  add := add
  resolve b := (b.resolve, b)
  reset := reset
  info := info

end Batch

end Telemetry

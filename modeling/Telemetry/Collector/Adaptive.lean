import Telemetry.Collector.Batch
import Telemetry.Fingerprint

/-!
# Chunks that follow the schema

An adaptive collector begins a new batch whenever the fingerprint of a sample is not that of the last
one taken; within a run of equal fingerprints it is a batch. A fingerprint covers the keys of a sample
and the number of its series, so a sample with the same keys and another type at some position is still
refused by the chunk it lands in.
-/

namespace Telemetry

/-- Batches, one for each run of samples with one fingerprint: those of earlier runs, in order, and the one that takes
samples, with the fingerprint of the last sample taken. -/
structure Adaptive where
  maxSamples : Nat
  compression : Compression
  closed : Array Batch
  current : Batch
  fingerprint? : Option Fingerprint

namespace Adaptive

/-- An adaptive collector without samples. -/
def empty (maxSamples : Nat) (z : Compression) : Adaptive :=
  { maxSamples, compression := z, closed := #[], current := .empty maxSamples z, fingerprint? := none }

/-- All batches, in order. -/
def batches (a : Adaptive) : List Batch :=
  a.closed.toList ++ [a.current]

/-- The number of slots of the longest delta buffer. -/
def longestBuffer (a : Adaptive) : Nat :=
  (a.batches.map Batch.longestBuffer).foldr max 0

/-- How much the collector holds. -/
def info (a : Adaptive) : Info :=
  .sum (a.batches.map Batch.info)

/-- The collector without samples and metadata. -/
def reset (a : Adaptive) : Adaptive :=
  empty a.maxSamples a.compression

/-- The collector with a metadata document ahead of its first batch. -/
def setMetadata (d : Document) (a : Adaptive) : Adaptive :=
  if a.closed.isEmpty then { a with current := a.current.setMetadata d }
  else { a with closed := a.closed.modify 0 (Batch.setMetadata d) }

/-- The collector with a new batch open if samples have been taken under another fingerprint. -/
def turn (f : Fingerprint) (a : Adaptive) : Adaptive :=
  match a.fingerprint? with
  | some last =>
    if last = f then a
    else { a with closed := a.closed.push a.current, current := .empty a.maxSamples a.compression }
  | none => a

/-- Take a sample into the open batch, or into a new one if the fingerprint has changed. -/
def add (sample : Document) (a : Adaptive) : Except Error Unit × Adaptive :=
  let f := Document.fingerprint sample
  let a := a.turn f
  match a.current.add sample with
  | (.error e, current) => (.error e, { a with current })
  | (.ok (), current) => (.ok (), { a with current, fingerprint? := some f })

/-- The records of all batches, in order. -/
def resolve (a : Adaptive) : Except Error Bytes :=
  (a.batches.mapM Batch.resolve).map List.flatten

instance : Collector Adaptive where
  setMetadata := setMetadata
  add := add
  resolve a := (a.resolve, a)
  reset := reset
  info := info

end Adaptive

end Telemetry

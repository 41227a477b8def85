import Telemetry.Collector.Window
import Telemetry.Fingerprint

/-!
# Chunks written as soon as they are finished

A streaming collector keeps the open window only. A window that is full is written to the sink, with its
metadata document, before the next sample is taken; a window the sink refuses stays open, full, and its
samples are neither lost nor written twice. The adaptive kind also writes the window when the fingerprint
of a sample is not that of the last one taken.
-/

namespace Telemetry

/-! ## By number of samples -/

/-- A window in front of a sink, with the number of chunks that have been written. A chunk holds at least one
sample. -/
structure Streaming where
  sink : Sink
  maxSamples : Nat
  current : Window
  chunksWritten : Nat

namespace Streaming

/-- A collector that has taken nothing, in front of a sink. -/
def empty (maxSamples : Nat) (z : Compression) (sink : Sink) : Streaming :=
  { sink
    maxSamples := max maxSamples 1
    current := .empty (max maxSamples 1 - 1) z
    chunksWritten := 0 }

/-- Write the open window, if it holds samples, and begin a new one. -/
def writeChunk (s : Streaming) : Except Error Unit × Streaming :=
  if s.current.info.samples = 0 then (.ok (), s)
  else
    match Collector.flushInto s.current s.sink with
    | (.ok (), current, sink) =>
      (.ok (), { s with current, sink, chunksWritten := s.chunksWritten + 1 })
    | (.error e, current, sink) => (.error e, { s with current, sink })

/-- Write the open window, if it holds samples, and flush the sink. -/
def flush (s : Streaming) : Except Error Unit × Streaming :=
  match s.writeChunk with
  | (.error e, s) => (.error e, s)
  | (.ok (), s) =>
    let (result, sink) := s.sink.flush
    (result, { s with sink })

/-- Take a sample, after a full window has been written. -/
def add (sample : Document) (s : Streaming) : Except Error Unit × Streaming :=
  -- a full window leaves first, and stays where it is if the sink refuses it
  let (room, s) := if s.maxSamples ≤ s.current.info.samples then s.writeChunk else (.ok (), s)
  match room with
  | .error e => (.error e, s)
  | .ok () =>
    let (result, current) := s.current.add sample
    (result, { s with current })

/-- The collector with a metadata document, to be written ahead of the next chunk. -/
def setMetadata (d : Document) (s : Streaming) : Streaming :=
  { s with current := s.current.setMetadata d }

/-- The collector without the samples and the metadata of the open window. -/
def reset (s : Streaming) : Streaming :=
  { s with current := s.current.reset }

/-- How much the open window holds. -/
def info (s : Streaming) : Info :=
  s.current.info

instance : Collector Streaming where
  setMetadata := setMetadata
  add := add
  resolve s := (s.current.resolve, s)
  reset := reset
  info := info

end Streaming

/-! ## Also by schema -/

/-- A streaming collector that follows the fingerprint of its samples, of which it knows that of the last one taken. -/
structure AdaptiveStreaming where
  inner : Streaming
  fingerprint? : Option Fingerprint

namespace AdaptiveStreaming

/-- A collector that has taken nothing, in front of a sink. -/
def empty (maxSamples : Nat) (z : Compression) (sink : Sink) : AdaptiveStreaming :=
  ⟨.empty maxSamples z sink, none⟩

/-- Write the open window if samples have been taken under another fingerprint. -/
def turn (f : Fingerprint) (s : AdaptiveStreaming) : Except Error Unit × AdaptiveStreaming :=
  match s.fingerprint? with
  | some last =>
    if last = f then (.ok (), s)
    else
      let (result, inner) := s.inner.writeChunk
      (result, { s with inner })
  | none => (.ok (), s)

/-- Take a sample, after a window of another schema has been written. -/
def add (sample : Document) (s : AdaptiveStreaming) : Except Error Unit × AdaptiveStreaming :=
  let f := Document.fingerprint sample
  match s.turn f with
  | (.error e, s) => (.error e, s)
  | (.ok (), s) =>
    match s.inner.add sample with
    | (.error e, inner) => (.error e, { s with inner })
    | (.ok (), inner) => (.ok (), { inner, fingerprint? := some f })

/-- Write the open window, if it holds samples, and flush the sink. -/
def flush (s : AdaptiveStreaming) : Except Error Unit × AdaptiveStreaming :=
  let (result, inner) := s.inner.flush
  (result, { s with inner })

/-- The collector with a metadata document, to be written ahead of the next chunk. -/
def setMetadata (d : Document) (s : AdaptiveStreaming) : AdaptiveStreaming :=
  { s with inner := s.inner.setMetadata d }

/-- The collector without samples, metadata and fingerprint. -/
def reset (s : AdaptiveStreaming) : AdaptiveStreaming :=
  ⟨s.inner.reset, none⟩

instance : Collector AdaptiveStreaming where
  setMetadata := setMetadata
  add := add
  resolve s := (s.inner.current.resolve, s)
  reset := reset
  info s := s.inner.info

end AdaptiveStreaming

end Telemetry

import Telemetry.Document.Json
import Telemetry.Sink

/-!
# Collectors

A collector takes samples one by one and gives them back as a stream of records. What distinguishes
collectors is when they begin a new chunk, where a finished chunk goes, and which samples they take at
all; what they have in common is the interface of this module.

An operation that can be refused returns what came of it together with the state after it, also when it
was refused: a sink has then been called, or a chunk closed.
-/

namespace Telemetry

/-- How much a collector holds: samples, first samples of chunks included, and series, over all chunks. -/
structure Info where
  samples : Nat
  metrics : Nat
  deriving DecidableEq, Repr

namespace Info

/-- Nothing. -/
def zero : Info := ⟨0, 0⟩

/-- Both counts added. -/
def add (a b : Info) : Info :=
  ⟨a.samples + b.samples, a.metrics + b.metrics⟩

/-- The sum over a list. -/
def sum (infos : List Info) : Info :=
  infos.foldl add zero

end Info

/-- What every collector can do: put a metadata document in front of the first chunk, take a sample, give back
everything held as records, begin again with nothing, and tell how much it holds. -/
class Collector (σ : Type) where
  setMetadata : Document → σ → σ
  add : Document → σ → Except Error Unit × σ
  resolve : σ → Except Error Bytes × σ
  reset : σ → σ
  info : σ → Info

/-- What milliseconds can go by for. -/
class Clocked (σ : Type) where
  elapse : Nat → σ → σ

namespace Collector

variable {σ : Type} [Collector σ]

/-- Take the sample that a JSON value stands for. -/
def addJson (j : Json) (c : σ) : Except Error Unit × σ :=
  match Document.ofJson? j with
  | .ok d => add d c
  | .error found => (.error (.serialization (.notAnObject found)), c)

/-- Write everything held to a sink and begin again. Nothing happens to a collector that holds no
samples, and a collector whose sink refuses keeps what it holds. -/
def flushInto (c : σ) (sink : Sink) : Except Error Unit × σ × Sink :=
  if (info c).samples = 0 then (.ok (), c, sink)
  else
    match resolve c with
    | (.error e, c) => (.error e, c, sink)
    | (.ok bytes, c) =>
      match sink.write bytes with
      | (.error e, sink) => (.error e, c, sink)
      | (.ok (), sink) => (.ok (), reset c, sink)

end Collector

end Telemetry

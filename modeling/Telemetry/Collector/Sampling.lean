import Telemetry.Collector

/-!
# Samples no closer than an interval

A sampling collector passes a sample on only if at least an interval has gone by since the last one it
passed on; the others are dropped, and dropping is no error. A sample that the wrapped collector refuses
does not count as passed on.

Time is a clock that stands at `now` and that its surroundings move on.
-/

namespace Telemetry

/-- A collector behind an interval. Times are in milliseconds: the least one between two samples, the present one, and
the one at which the last sample was passed on. -/
structure Sampling (σ : Type) where
  interval : Nat
  now : Nat
  last? : Option Nat
  dropped : Nat
  inner : σ

namespace Sampling

variable {σ : Type}

/-- An interval in front of a collector, nothing passed on yet. -/
def around (interval : Nat) (inner : σ) : Sampling σ :=
  ⟨interval, 0, none, 0, inner⟩

/-- The clock moved on. -/
def elapse (millis : Nat) (s : Sampling σ) : Sampling σ :=
  { s with now := s.now + millis }

/-- Whether a sample that comes now is passed on. -/
def accepts (s : Sampling σ) : Bool :=
  match s.last? with
  | some last => s.interval ≤ s.now - last
  | none => true

variable [Collector σ]

/-- Pass a sample on, or drop it. -/
def add (sample : Document) (s : Sampling σ) : Except Error Unit × Sampling σ :=
  if s.accepts then
    match Collector.add sample s.inner with
    | (.error e, inner) => (.error e, { s with inner })
    | (.ok (), inner) => (.ok (), { s with inner, last? := some s.now })
  else (.ok (), { s with dropped := s.dropped + 1 })

/-- Everything the wrapped collector holds. -/
def resolve (s : Sampling σ) : Except Error Bytes × Sampling σ :=
  let (result, inner) := Collector.resolve s.inner
  (result, { s with inner })

/-- The collector without samples, the next one to be passed on. -/
def reset (s : Sampling σ) : Sampling σ :=
  { s with inner := Collector.reset s.inner, last? := none, dropped := 0 }

instance : Collector (Sampling σ) where
  setMetadata d s := { s with inner := Collector.setMetadata d s.inner }
  add := add
  resolve := resolve
  reset := reset
  info s := Collector.info s.inner

end Sampling

end Telemetry

import Telemetry.Error

/-!
# Byte sinks that may refuse

A sink takes bytes in write calls and can be asked to flush. Either call may be refused; a refused write
takes nothing. Which calls are refused is told by their numbers, counted from zero for each kind.
-/

namespace Telemetry

/-- A sink of bytes: what it has taken, how many write and flush calls there have been, and which calls are refused.
-/
structure Sink where
  contents : Bytes
  writes : Nat
  flushes : Nat
  refusesWrite : Nat → Bool
  refusesFlush : Nat → Bool

namespace Sink

/-- An empty sink that refuses the given calls. -/
def refusing (refusesWrite refusesFlush : Nat → Bool) : Sink :=
  ⟨[], 0, 0, refusesWrite, refusesFlush⟩

/-- An empty sink that takes everything. -/
def empty : Sink :=
  refusing (fun _ => false) (fun _ => false)

/-- A write call. -/
def write (bytes : Bytes) (s : Sink) : Except Error Unit × Sink :=
  if s.refusesWrite s.writes then
    (.error (.io "sink refused write"), { s with writes := s.writes + 1 })
  else (.ok (), { s with contents := s.contents ++ bytes, writes := s.writes + 1 })

/-- A flush call. -/
def flush (s : Sink) : Except Error Unit × Sink :=
  let after := { s with flushes := s.flushes + 1 }
  if s.refusesFlush s.flushes then (.error (.io "sink refused flush"), after) else (.ok (), after)

/-- The sink, the next write call refused. -/
def refuseNextWrite (s : Sink) : Sink :=
  { s with refusesWrite := fun n => n == s.writes || s.refusesWrite n }

end Sink

end Telemetry

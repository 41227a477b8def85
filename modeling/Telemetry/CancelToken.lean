/-!
# Cancellation

A token is a signal that is given once and stays. Whoever holds it sees it given; there is no way to
take it back.
-/

namespace Telemetry

/-- A cancellation signal, given or not. -/
structure CancelToken where
  isCancelled : Bool
  deriving DecidableEq, Repr

namespace CancelToken

/-- A signal that has not been given. -/
def fresh : CancelToken := ⟨false⟩

/-- The signal given. -/
def cancel (_ : CancelToken) : CancelToken := ⟨true⟩

/-- The state of the signal as text. -/
def describe (t : CancelToken) : String :=
  "CancelToken \x7b cancelled: " ++ (if t.isCancelled then "true" else "false") ++ " \x7d"

end CancelToken

end Telemetry

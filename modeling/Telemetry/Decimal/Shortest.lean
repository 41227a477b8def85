import Telemetry.Double

/-!
# The shortest decimal of a double

Among the decimals that read back as a given finite double, the one printed has the fewest digits, and
among those it is the nearest to the double, a tie going to the even digit.

## Shape of the search

A double `m · 2 ^ q` is the rounding of every real in an interval around it, its ends half a step away
(a quarter step below, where the step changes) and included exactly when `m` is even. For one digit,
two digits, and so on up to seventeen, the only candidates on that decimal grid are the double's two
neighbours; the first grid with a candidate in the interval wins. All comparisons are between natural
numbers: the interval's ends and the double itself are whole multiples of `2 ^ (q - 2)`.
-/

namespace Telemetry

/-- A positive decimal, `digits · 10 ^ exponent`. -/
structure Decimal where
  digits : Nat
  exponent : Int
  deriving DecidableEq, Repr, Inhabited

namespace Decimal

/-- Two to a whole power, as a fraction. -/
def ratioOfTwo (e : Int) : Nat × Nat :=
  (Nat.pow 2 e.toNat, Nat.pow 2 (-e).toNat)

/-- Ten to a whole power, as a fraction. -/
def ratioOfTen (e : Int) : Nat × Nat :=
  (Nat.pow 10 e.toNat, Nat.pow 10 (-e).toNat)

/-- The interval of reals that round to a positive double, with the double itself as `value`, in units of `2 ^ unit`.
The ends belong to it if it is closed. -/
structure Interval where
  low : Nat
  value : Nat
  high : Nat
  unit : Int
  closed : Bool

/-- The rounding interval of a positive finite double. -/
def Interval.ofDouble (d : Double) : Interval where
  low := 4 * d.significand - if d.significand = Double.hiddenBit ∧ 1 < d.exponent then 1 else 2
  value := 4 * d.significand
  high := 4 * d.significand + 2
  unit := (d.exponent : Int) - 1077
  closed := d.significand % 2 == 0

/-- The greatest `e` with `10 ^ e ≤ n · 2 ^ unit`, found from an estimate by the size of the number in
binary. -/
def leadingExponent (n : Nat) (unit : Int) : Int :=
  let (num, den) := ratioOfTwo unit
  let reaches (e : Int) : Bool :=
    let (tenNum, tenDen) := ratioOfTen e
    tenNum * den ≤ n * num * tenDen
  let guess := Int.fdiv (((Nat.log2 n : Int) + unit) * 30103) 100000
  if !reaches guess then guess - 1 else if reaches (guess + 1) then guess + 1 else guess

/-- The neighbour of the double on the grid of multiples of `10 ^ exponent` that lies in the interval;
the nearer of two, the even one of two equally near. -/
def onGrid? (i : Interval) (exponent : Int) : Option Nat :=
  let (num, den) := ratioOfTwo i.unit
  let (tenNum, tenDen) := ratioOfTen exponent
  let scale (x : Nat) : Nat := x * num * tenDen
  let step := tenNum * den
  let inside (c : Nat) : Bool :=
    if i.closed then scale i.low ≤ c * step && c * step ≤ scale i.high
    else scale i.low < c * step && c * step < scale i.high
  let below := scale i.value / step
  let above := below + 1
  match inside below, inside above with
  | false, false => none
  | true, false => some below
  | false, true => some above
  | true, true =>
    let toBelow := scale i.value - below * step
    let toAbove := above * step - scale i.value
    if toBelow < toAbove then some below
    else if toAbove < toBelow then some above
    else if below % 2 = 0 then some below else some above

/-- The decimal without zeros at its end; `fuel` bounds how many are dropped. -/
def dropZeros : (fuel : Nat) → Decimal → Decimal
  | 0, d => d
  | fuel + 1, d =>
    if d.digits % 10 = 0 ∧ d.digits ≠ 0 then dropZeros fuel ⟨d.digits / 10, d.exponent + 1⟩ else d

/-- The shortest decimal that reads back as a positive finite double. Seventeen digits always
suffice. -/
def shortest (d : Double) : Decimal :=
  let i := Interval.ofDouble d
  let leading := leadingExponent i.value i.unit
  let found := (List.range 17).findSome? fun (places : Nat) =>
    (onGrid? i (leading - places)).map fun digits => (⟨digits, leading - places⟩ : Decimal)
  dropZeros 17 (found.getD ⟨0, 0⟩)

end Decimal

end Telemetry

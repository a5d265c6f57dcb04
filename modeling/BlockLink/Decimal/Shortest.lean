import BlockLink.Decimal.Nearest

/-!
# `BlockLink/Decimal/Shortest.lean` — the fewest digits that read back

The text of a double has no more digits than it takes to tell it from its neighbours. The reals
that round to `m * 2 ^ q` form an interval around it, half a step to each side (a quarter step
below a power of two, where the steps halve), with its ends included exactly when `m` is even. On
the grid of multiples of `10 ^ k` the value has one neighbour below and one above; the first grid,
from coarse to fine, with a neighbour inside the interval gives the digits. If both are inside, the
nearer one is taken, and of two equally near ones the even one.
-/

set_option autoImplicit false

namespace BlockLink.Decimal

/-- The reals that round to one double, as multiples of `1 / den`. -/
structure Interval where
  low : Nat
  value : Nat
  high : Nat
  den : Nat
  /-- Whether the ends belong to it. -/
  closed : Bool
  deriving Repr

/-- The interval of reals that round to a double. -/
def Magnitude.interval (x : Magnitude) : Interval :=
  let m := x.significand
  let below := if m = Nat.pow 2 52 ∧ minExponent < x.exponent then 1 else 2
  let e := x.exponent - 2
  let up := if 0 ≤ e then Nat.pow 2 e.toNat else 1
  let den := if 0 ≤ e then 1 else Nat.pow 2 (-e).toNat
  { low := (4 * m - below) * up, value := 4 * m * up, high := (4 * m + 2) * up, den
    closed := m % 2 = 0 }

/-- The number of decimal digits of a natural number. -/
def digitCount (n : Nat) : Nat :=
  (Nat.toDigits 10 n).length

/-- How many zeros follow the decimal point of the fraction `num / den` below one. -/
def leadingZeros (den : Nat) : Nat → Nat → Nat
  | 0, _ => 0
  | fuel + 1, num => if den ≤ 10 * num then 0 else 1 + leadingZeros den fuel (10 * num)

/-- The place of the decimal point: the `p` with `10 ^ (p - 1) ≤ num / den < 10 ^ p`. No double
has more than 324 zeros behind the point. -/
def pointPlace (num den : Nat) : Int :=
  if den ≤ num then (digitCount (num / den) : Int) else -(leadingZeros den 324 num : Int)

/-- The multiple of `10 ^ k` nearest to the value among its two neighbours, if one is inside. -/
def Interval.onGrid? (i : Interval) (k : Int) : Option Nat :=
  let step := i.den * (if 0 ≤ k then Nat.pow 10 k.toNat else 1)
  let scale := if 0 ≤ k then 1 else Nat.pow 10 (-k).toNat
  let value := i.value * scale
  let inside (d : Nat) : Bool :=
    if i.closed then i.low * scale ≤ d * step && d * step ≤ i.high * scale
    else i.low * scale < d * step && d * step < i.high * scale
  let d := value / step
  match inside d, inside (d + 1) with
  | true, true =>
    let below := value - d * step
    let above := (d + 1) * step - value
    if below < above then some d
    else if above < below then some (d + 1)
    else if d % 2 = 0 then some d
    else some (d + 1)
  | true, false => some d
  | false, true => some (d + 1)
  | false, false => none

/-- Moves the zeros at the end of a number into the exponent. -/
def dropZeros : Nat → Nat → Int → Nat × Int
  | 0, d, k => (d, k)
  | fuel + 1, d, k => if d ≠ 0 ∧ d % 10 = 0 then dropZeros fuel (d / 10) (k + 1) else (d, k)

/-- The shortest decimal `digits * 10 ^ exponent` that reads back as the given positive double.
Seventeen digits always suffice. -/
def Magnitude.shortest (x : Magnitude) : Nat × Int :=
  let i := x.interval
  let point := pointPlace i.value i.den
  let found := (List.range 17).findSome? fun n =>
    let k := point - (n + 1 : Nat)
    (i.onGrid? k).map fun d => (d, k)
  match found with
  | some (d, k) => dropZeros 17 d k
  | none => (0, 0)

end BlockLink.Decimal

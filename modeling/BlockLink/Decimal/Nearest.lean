/-!
# `BlockLink/Decimal/Nearest.lean` — the double nearest to a fraction

A positive double is `significand * 2 ^ exponent` with a significand below `2 ^ 53` and an exponent
of at least `-1074`; it is *normal* when the significand also fills all fifty-three bits, and only
the doubles at the smallest exponent are allowed not to. Everything here is exact arithmetic on
natural numbers, so that what a number's text means is visible to a proof.

`nearest?` is the one place where a value is rounded: to the nearest double, and of two equally
near ones to the one with the even significand.
-/

set_option autoImplicit false

namespace BlockLink.Decimal

/-- The size of a finite double: `significand * 2 ^ exponent`. -/
structure Magnitude where
  significand : Nat
  exponent : Int
  deriving DecidableEq, Repr

/-- The smallest exponent of a double. -/
def minExponent : Int := -1074

/-- The largest exponent of a finite double. -/
def maxExponent : Int := 971

/-- A quotient rounded to the nearest natural number, a half going to the even neighbour. -/
def roundDiv (num den : Nat) : Nat :=
  let below := num / den
  let twice := 2 * (num % den)
  if twice < den then below
  else if den < twice then below + 1
  else if below % 2 = 0 then below
  else below + 1

/-- The fraction `num / den` divided by `2 ^ e`, again as a fraction. -/
def shiftDown (num den : Nat) (e : Int) : Nat × Nat :=
  if 0 ≤ e then (num, den * Nat.pow 2 e.toNat) else (num * Nat.pow 2 (-e).toNat, den)

/-- The exponent of the double nearest to `num / den`, before rounding up can carry: the largest
one at which the quotient still has at least fifty-three bits, but not less than the smallest. -/
def exponentFor (num den : Nat) : Int :=
  let e := max ((num.log2 : Int) - (den.log2 : Int) - 53) minExponent
  let scaled := shiftDown num den e
  if scaled.1 / scaled.2 < Nat.pow 2 53 then e else e + 1

/-- The double nearest to the positive fraction `num / den`; `none` beyond the largest double. -/
def nearest? (num den : Nat) : Option Magnitude :=
  let e := exponentFor num den
  let scaled := shiftDown num den e
  let m := roundDiv scaled.1 scaled.2
  let rounded : Magnitude := if m < Nat.pow 2 53 then ⟨m, e⟩ else ⟨Nat.pow 2 52, e + 1⟩
  if rounded.exponent ≤ maxExponent then some rounded else none

end BlockLink.Decimal

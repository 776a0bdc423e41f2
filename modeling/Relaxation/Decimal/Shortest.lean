import Relaxation.Decimal.Binary
import Relaxation.Decimal.Rounding

/-!
The fewest decimal digits that read back to the same double. The reals that
round to a value form an interval; grids of one, two, .. seventeen significant
digits are tried in turn, and only the two grid points beside the value can be
the first to fall inside.
-/

namespace Relaxation.Decimal

structure Digits where
  digits : Nat
  exponent : Int
  deriving DecidableEq, Repr

def Digits.trim (number : Digits) : Digits :=
  if positive : 0 < number.digits ∧ number.digits % 10 = 0 then
    trim ⟨number.digits / 10, number.exponent + 1⟩
  else number
termination_by number.digits
decreasing_by exact Nat.div_lt_self positive.1 (by decide)

/-- Comparison of a value with the points of a decimal grid in whole numbers:
grid point `c` and quarter unit `u` of the value are compared as `c * step` and
`u * quarter`. -/
structure Grid where
  step : Nat
  quarter : Nat

def Grid.between (exponent : Int) (decimal : Int) : Grid where
  step := Nat.pow 10 decimal.toNat * Nat.pow 2 (2 - exponent).toNat
  quarter := Nat.pow 2 (exponent - 2).toNat * Nat.pow 10 (-decimal).toNat

/-- The quarter units below a significand that still round to it. The distance
to the next lower double is half as long at a power of two. -/
def quartersBelow (significand : Nat) (exponent : Int) : Nat :=
  if significand = Binary.hiddenBit ∧ Binary.leastExponent < exponent then 1 else 2

/-- The grid point chosen for a value, if one of its neighbours reads back. An
exact tie goes up. -/
def Grid.choose (grid : Grid) (significand : Nat) (below : Nat) : Option Nat :=
  let value := 4 * significand * grid.quarter
  let lower := (4 * significand - below) * grid.quarter
  let upper := (4 * significand + 2) * grid.quarter
  let inside (point : Nat) : Bool :=
    if significand % 2 = 0 then lower ≤ point && point ≤ upper
    else lower < point && point < upper
  let floor := value / grid.step
  let floorInside := inside (floor * grid.step)
  let ceilingInside := inside ((floor + 1) * grid.step)
  if ceilingInside && (!floorInside || grid.step ≤ 2 * (value % grid.step)) then
    some (floor + 1)
  else if floorInside then some floor
  else none

/-- Shortest digits of `significand * 2 ^ exponent` for a positive significand.
Seventeen digits always suffice. -/
def shortest (significand : Nat) (exponent : Int) : Digits :=
  let (numerator, denominator) := ratio significand exponent
  let leading := leadingExponent numerator denominator
  let below := quartersBelow significand exponent
  let attempt (count : Nat) : Option Digits :=
    let decimal := leading - count
    ((Grid.between exponent decimal).choose significand below).map fun digits =>
      Digits.trim ⟨digits, decimal⟩
  ((List.range 17).findSome? attempt).getD ⟨0, 0⟩

end Relaxation.Decimal

/-!
The numbers a relaxation computes with. Every kernel is written once over
`Arithmetic`; the program runs it on `Float`, and an exact field can take the
place of `Float` wherever a statement is about the method and not its rounding.
No law is assumed here, so the order of operations is part of each definition.
-/

namespace Relaxation

/-- Operations and tests on the values of a system. `isZero` is the comparison
with zero, so it holds of both signed zeros. -/
class Arithmetic (α : Type) extends
    Zero α, One α, Neg α, Add α, Sub α, Mul α, Div α, NatCast α, OfScientific α where
  isZero : α → Bool
  isFinite : α → Bool
  le : α → α → Bool
  lt : α → α → Bool

class SquareRoot (α : Type) where
  root : α → α

instance : Arithmetic Float where
  zero := 0.0
  one := 1.0
  natCast := Float.ofNat
  isZero value := value == 0.0
  isFinite := Float.isFinite
  le a b := decide (a ≤ b)
  lt a b := decide (a < b)

instance : SquareRoot Float where
  root := Float.sqrt

namespace Arithmetic

variable {α : Type} [Arithmetic α]

/-- A pivot or diagonal entry one can divide by. -/
def usable (value : α) : Bool :=
  !isZero value && isFinite value

/-- Left-to-right sum. It starts from minus zero, the neutral element of a
rounded sum, so a sum of minus zeros stays minus zero. -/
def total (values : List α) : α :=
  values.foldl (· + ·) (-0)

def squares (values : List α) : α :=
  total (values.map fun value => value * value)

end Arithmetic
end Relaxation

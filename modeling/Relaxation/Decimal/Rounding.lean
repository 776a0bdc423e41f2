/-!
Rounding of a ratio of naturals, and the position of its leading digit.
-/

namespace Relaxation.Decimal

def roundHalfEven (numerator denominator : Nat) : Nat :=
  let quotient := numerator / denominator
  let twice := 2 * (numerator % denominator)
  if denominator < twice ∨ (twice = denominator ∧ quotient % 2 = 1) then quotient + 1
  else quotient

def log10 (n : Nat) : Nat :=
  if n < 10 then 0 else log10 (n / 10) + 1
termination_by n

/-- The exponent of the leading digit of a positive ratio: `10 ^ e ≤ ratio`
and `ratio < 10 ^ (e + 1)`. The digit counts leave two candidates. -/
def leadingExponent (numerator denominator : Nat) : Int :=
  let guess : Int := (log10 numerator : Int) - log10 denominator
  let reached :=
    if 0 ≤ guess then denominator * Nat.pow 10 guess.toNat ≤ numerator
    else denominator ≤ numerator * Nat.pow 10 (-guess).toNat
  if reached then guess else guess - 1

def roundToExponent (numerator denominator : Nat) (exponent : Int) : Nat :=
  roundHalfEven (numerator * Nat.pow 10 (-exponent).toNat)
    (denominator * Nat.pow 10 exponent.toNat)

end Relaxation.Decimal

import Relaxation.Proofs.Reduction

/-!
Exact arithmetic: the rational numbers in the place of rounded ones. Every value is
finite, zero has one sign, and a sum is the same in every order.
-/

namespace Relaxation

instance : Arithmetic ℚ where
  isZero value := decide (value = 0)
  isFinite _ := true
  le a b := decide (a ≤ b)
  lt a b := decide (a < b)

instance : AddLaws ℚ where
  add_comm := add_comm
  add_assoc := add_assoc
  zero_add := zero_add

namespace Exact

theorem usable_iff (value : ℚ) : Arithmetic.usable value = true ↔ value ≠ 0 := by
  simp [Arithmetic.usable, Arithmetic.isZero, Arithmetic.isFinite]

end Exact
end Relaxation

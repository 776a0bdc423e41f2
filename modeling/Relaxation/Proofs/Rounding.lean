import Relaxation.Proofs.Exact

/-!
What rounding leaves of the laws of arithmetic. The exact numbers keep each of these laws, and so
do floating-point ones, down to their bits: what is proved from them alone holds of the program
as it runs.
-/

namespace Relaxation

/-- What is left of the laws of addition on numbers that are rounded and have signed
zeros. -/
class SignedZeros (α : Type) [Arithmetic α] : Prop where
  add_comm : ∀ a b : α, a + b = b + a
  add_neg_zero : ∀ a : α, a + -0 = a
  zero_add : ∀ a : α, a ≠ -0 → 0 + a = a

/-- What is left of the laws of multiplication. Both zeros have the same square. -/
class SignedProducts (α : Type) [Arithmetic α] : Prop where
  mul_comm : ∀ a b : α, a * b = b * a
  square_neg_zero : (-0 : α) * -0 = 0 * 0

/-- An operand that is not finite leaves no finite product and no finite difference. -/
class FiniteOperands (α : Type) [Arithmetic α] : Prop where
  of_mul : ∀ a b : α, Arithmetic.isFinite (a * b) = true →
    Arithmetic.isFinite a = true ∧ Arithmetic.isFinite b = true
  of_sub : ∀ a b : α, Arithmetic.isFinite (a - b) = true →
    Arithmetic.isFinite a = true ∧ Arithmetic.isFinite b = true

instance : SignedZeros ℚ where
  add_comm := add_comm
  add_neg_zero a := by simp
  zero_add a _ := zero_add a

instance : SignedProducts ℚ where
  mul_comm := mul_comm
  square_neg_zero := by simp

instance : FiniteOperands ℚ where
  of_mul _ _ _ := ⟨rfl, rfl⟩
  of_sub _ _ _ := ⟨rfl, rfl⟩

namespace Rounding

open Float.Model

section Packing

theorem pack_unpack (a : Float.Model) : Float.Model.pack a.unpack = a := by
  cases a with
  | mk bits valid =>
      unfold Float.Model.pack Float.Model.unpack
      congr 1
      exact congrArg UInt64.ofBitVec (UnpackedFloat.pack_unpack_of_valid valid)

theorem eq_of_unpack {a b : Float} (same : a.toModel.unpack = b.toModel.unpack) : a = b := by
  obtain ⟨a⟩ := a
  obtain ⟨b⟩ := b
  rw [← pack_unpack a, ← pack_unpack b]
  exact congrArg (fun unpacked => Float.ofModel (Float.Model.pack unpacked)) same

theorem unpack_infinity (sign : UnpackedFloat.Sign) :
    (Float.Model.pack (.infinity sign)).unpack = .infinity sign := by
  simp only [Float.Model.pack, Float.Model.unpack, UnpackedFloat.pack, UnpackedFloat.unpack,
    UnpackedFloat.packedInfinity, UnpackedFloat.unpackExponent_packComponents,
    UnpackedFloat.unpackMantissa_packComponents, UnpackedFloat.unpackSign_packComponents,
    UnpackedFloat.Sign.ofBitVec_toBitVec, if_true]
  exact if_pos rfl

theorem finite_of_pack {a : UnpackedFloat} (finite : (Float.Model.pack a).isFinite = true) :
    a.isFinite = true := by
  unfold Float.Model.isFinite at finite
  cases a with
  | infinity sign => rwa [unpack_infinity] at finite
  | notANumber => rwa [show (Float.Model.pack .notANumber).unpack = .notANumber from
      UnpackedFloat.unpack_packedNaN] at finite
  | zero sign => rfl
  | finite sign mantissa exponent positive => rfl

theorem unpack_zero : (0 : Float).toModel.unpack = .zero .positive := by
  have packed : (0 : Float).toModel = Float.Model.pack (.zero .positive) := by decide +kernel
  rw [packed]
  exact UnpackedFloat.unpack_packedZero

theorem unpack_neg_zero : (-0 : Float).toModel.unpack = .zero .negative := by
  have packed : (-0 : Float).toModel = Float.Model.pack (.zero .negative) := by decide +kernel
  rw [packed]
  exact UnpackedFloat.unpack_packedZero

end Packing

section Operations

variable (spec : Format)

theorem add_comm (a b : UnpackedFloat) : a.add spec b = b.add spec a := by
  rcases a with (_ | _) | _ | (_ | _) | ⟨sign, mantissa, exponent, _⟩ <;>
    rcases b with (_ | _) | _ | (_ | _) | ⟨sign', mantissa', exponent', _⟩ <;> try rfl
  -- two finite numbers are added at their smaller exponent
  simp only [UnpackedFloat.add]
  rw [min_comm, Int.add_comm]

theorem add_neg_zero (a : UnpackedFloat) : a.add spec (.zero .negative) = a := by
  rcases a with (_ | _) | _ | (_ | _) | _ <;> rfl

theorem zero_add {a : UnpackedFloat} (other : a ≠ .zero .negative) :
    UnpackedFloat.add spec (.zero .positive) a = a := by
  rcases a with (_ | _) | _ | (_ | _) | _ <;> first | rfl | exact absurd rfl other

theorem sign_mul_comm (a b : UnpackedFloat.Sign) : a * b = b * a := by
  cases a <;> cases b <;> rfl

theorem mul_comm (a b : UnpackedFloat) : a.mul spec b = b.mul spec a := by
  cases a with
  | notANumber => cases b <;> rfl
  | infinity sign => cases b <;> simp only [UnpackedFloat.mul, sign_mul_comm sign]
  | zero sign => cases b <;> simp only [UnpackedFloat.mul, sign_mul_comm sign]
  | finite sign mantissa exponent =>
      cases b <;> simp only [UnpackedFloat.mul, sign_mul_comm sign, Nat.mul_comm mantissa,
        Int.add_comm exponent]

variable {spec} {a b : UnpackedFloat}

theorem finite_of_mul (finite : (a.mul spec b).isFinite = true) :
    a.isFinite = true ∧ b.isFinite = true := by
  rcases a with _ | _ | _ | _ <;> rcases b with _ | _ | _ | _ <;>
    first
    | exact ⟨rfl, rfl⟩
    | simp [UnpackedFloat.mul, UnpackedFloat.isFinite] at finite

theorem finite_of_sub (finite : (a.sub spec b).isFinite = true) :
    a.isFinite = true ∧ b.isFinite = true := by
  rcases a with (_ | _) | _ | _ | _ <;> rcases b with (_ | _) | _ | _ | _ <;>
    first
    | exact ⟨rfl, rfl⟩
    | cases finite

end Operations
end Rounding

instance : SignedZeros Float where
  add_comm a b := congrArg (fun unpacked => Float.ofModel (Float.Model.pack unpacked))
    (Rounding.add_comm .binary64 a.toModel.unpack b.toModel.unpack)
  add_neg_zero a := by
    change Float.ofModel (.pack (.add .binary64 a.toModel.unpack (-0 : Float).toModel.unpack)) = a
    rw [Rounding.unpack_neg_zero, Rounding.add_neg_zero, Rounding.pack_unpack]
  zero_add a other := by
    change Float.ofModel (.pack (.add .binary64 (0 : Float).toModel.unpack a.toModel.unpack)) = a
    rw [Rounding.unpack_zero, Rounding.zero_add, Rounding.pack_unpack]
    exact fun same => other (Rounding.eq_of_unpack (same.trans Rounding.unpack_neg_zero.symm))

instance : SignedProducts Float where
  mul_comm a b := congrArg (fun unpacked => Float.ofModel (Float.Model.pack unpacked))
    (Rounding.mul_comm .binary64 a.toModel.unpack b.toModel.unpack)
  square_neg_zero := by decide +kernel

instance : FiniteOperands Float where
  of_mul _ _ finite := Rounding.finite_of_mul (Rounding.finite_of_pack finite)
  of_sub _ _ finite := Rounding.finite_of_sub (Rounding.finite_of_pack finite)

end Relaxation

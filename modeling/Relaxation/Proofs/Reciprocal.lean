import Mathlib
import Relaxation.Proofs.InverseDiagonal
import Relaxation.Proofs.Order
import Relaxation.Proofs.Rounding

/-!
Reciprocals of doubles. The reciprocal of an entry that a scalar diagonal may hold is never zero,
but it overflows where the entry is too close to zero, and there alone.
-/

namespace Relaxation

def Arithmetic.reciprocal {α : Type} [Arithmetic α] (value : α) : α := 1 / value

namespace Rounding

open Float.Model UnpackedFloat

section Packing

/-- Digits at an exponent as a double holds them, as long as the exponent is not too large. Only
at the least exponent may the leading digit be missing. -/
structure Stored (mantissa : Nat) (exponent : Int) : Prop where
  digits : mantissa < 2 ^ 53
  least : -1074 ≤ exponent
  leading : mantissa < 2 ^ 52 → exponent = -1074

variable {sign : Sign} {mantissa : Nat} {exponent : Int} {positive : 0 < mantissa}

theorem toNat_leading_one (tail : BitVec 52) : (1#1 ++ tail).toNat = 2 ^ 52 + tail.toNat := by
  rw [BitVec.toNat_append, Nat.shiftLeft_eq, Nat.mul_comm,
    ← Nat.two_pow_add_eq_or_of_lt tail.isLt]
  rfl

theorem stored_of_unpack {a : Float.Model}
    (unpacked : a.unpack = .finite sign mantissa exponent positive) :
    Stored mantissa exponent ∧ exponent ≤ 971 := by
  unfold Float.Model.unpack UnpackedFloat.unpack at unpacked
  have short := (@unpackExponent .binary64 a.toBits.toBitVec).isLt
  have tail := (@unpackMantissa .binary64 a.toBits.toBitVec).isLt
  have bias : Format.binary64.exponentBias = 1023 := rfl
  dsimp only at unpacked short tail
  rw [bias] at unpacked
  split at unpacked
  · split at unpacked <;> cases unpacked
  next number =>
    have largest : (@unpackExponent .binary64 a.toBits.toBitVec).toNat ≠ 2047 := fun same =>
      number (BitVec.eq_of_toNat_eq same)
    split at unpacked
    next subnormal =>
      split at unpacked
      · cases unpacked
      · cases unpacked
        rw [subnormal]
        simp only [BitVec.toNat_ofNat]
        refine ⟨⟨?_, ?_, ?_⟩, ?_⟩ <;> omega
    next normal =>
      cases unpacked
      have least : (@unpackExponent .binary64 a.toBits.toBitVec).toNat ≠ 0 := fun same =>
        normal (BitVec.eq_of_toNat_eq same)
      rw [toNat_leading_one]
      refine ⟨⟨?_, ?_, ?_⟩, ?_⟩ <;> omega

theorem log2_of_stored (stored : Stored mantissa exponent) (other : exponent ≠ -1074) :
    mantissa.log2 = 52 := by
  have leading : 2 ^ 52 ≤ mantissa := not_lt.mp fun short => other (stored.leading short)
  exact (Nat.log2_eq_iff (by omega)).mpr ⟨leading, stored.digits⟩

theorem unpack_overflow (large : 972 ≤ exponent) :
    (Float.Model.pack (.finite sign mantissa exponent positive)).unpack = .infinity sign := by
  have bias : Format.binary64.exponentBias = 1023 := rfl
  rw [← unpack_infinity]
  unfold Float.Model.pack
  congr 2
  unfold UnpackedFloat.pack
  dsimp only
  rw [bias, if_pos]
  omega

theorem unpack_normal (log : mantissa.log2 = 52) (least : -1074 ≤ exponent)
    (largest : exponent ≤ 971) :
    (Float.Model.pack (.finite sign mantissa exponent positive)).unpack =
      .finite sign mantissa exponent positive := by
  have bias : Format.binary64.exponentBias = 1023 := rfl
  have bits : Format.binary64.mantissaBits = 53 := rfl
  unfold Float.Model.pack Float.Model.unpack UnpackedFloat.pack
  dsimp only
  rw [bias, bits, if_neg (by omega), if_pos (by omega)]
  have biased : (BitVec.ofNat 11 (exponent + (1023 : Nat) + (52 : Nat)).toNat).toNat =
      (exponent + (1023 : Nat) + (52 : Nat)).toNat := Nat.mod_eq_of_lt (by omega)
  have tail : (BitVec.ofNat 52 mantissa).toNat = mantissa - 2 ^ 52 := by
    have leading := (Nat.log2_eq_iff positive.ne').mp log
    rw [BitVec.toNat_ofNat]
    omega
  unfold UnpackedFloat.unpack
  simp only [unpackExponent_packComponents, unpackMantissa_packComponents,
    unpackSign_packComponents, Sign.ofBitVec_toBitVec]
  rw [if_neg, if_neg]
  · congr 1
    · have leading := (Nat.log2_eq_iff positive.ne').mp log
      rw [toNat_leading_one, tail]
      omega
    · rw [biased, bias]
      omega
  · intro none
    rw [none] at biased
    change 0 = _ at biased
    omega
  · intro all
    rw [all] at biased
    change 2047 = _ at biased
    omega

theorem unpack_subnormal (short : mantissa < 2 ^ 52) :
    (Float.Model.pack (.finite sign mantissa (-1074) positive)).unpack =
      .finite sign mantissa (-1074) positive := by
  have bias : Format.binary64.exponentBias = 1023 := rfl
  have bits : Format.binary64.mantissaBits = 53 := rfl
  have log : mantissa.log2 < 52 := (Nat.log2_lt positive.ne').mpr short
  unfold Float.Model.pack Float.Model.unpack UnpackedFloat.pack
  dsimp only
  rw [bias, bits, if_neg (by omega), if_neg (by omega)]
  have whole : (BitVec.ofNat 52 mantissa).toNat = mantissa := Nat.mod_eq_of_lt short
  have present : BitVec.ofNat 52 mantissa ≠ 0#52 := fun none => by
    rw [none] at whole
    exact positive.ne whole
  unfold UnpackedFloat.unpack
  simp only [unpackExponent_packComponents, unpackMantissa_packComponents,
    unpackSign_packComponents, Sign.ofBitVec_toBitVec]
  rw [if_neg (by decide), if_pos trivial, dif_neg present]
  congr 1

theorem unpack_stored (stored : Stored mantissa exponent) (largest : exponent ≤ 971) :
    (Float.Model.pack (.finite sign mantissa exponent positive)).unpack =
      .finite sign mantissa exponent positive := by
  by_cases short : mantissa < 2 ^ 52
  · obtain rfl := stored.leading short
    exact unpack_subnormal short
  · have log : mantissa.log2 = 52 :=
      (Nat.log2_eq_iff positive.ne').mpr ⟨not_lt.mp short, stored.digits⟩
    exact unpack_normal log stored.least largest

end Packing

section Shifting

variable {mantissa : Nat} {exponent : Int}

theorem target_exponent (total : Int) :
    Format.binary64.targetExponent total = max (total - 53) (-1074) := rfl

theorem rounded_bounds (extended : ExtendedMantissa) :
    extended.mantissa ≤ extended.roundedMantissa ∧
      extended.roundedMantissa ≤ extended.mantissa + 1 := by
  unfold ExtendedMantissa.roundedMantissa
  rcases extended.accuracy with _ | (_ | _ | _) <;>
    simp only [Accuracy.roundToNearestEven] <;> omega

theorem mantissa_of_accuracy (mantissa : Nat) (accuracy : Accuracy) :
    (ExtendedMantissa.ofMantissaAndAccuracy mantissa accuracy).mantissa = mantissa := by
  rcases accuracy with _ | (_ | _ | _) <;> rfl

theorem shift_by {count : Nat}
    (apart : (max (mantissa.log2 + exponent - 52) (-1074) - exponent).toNat = count)
    (accuracy : Accuracy) :
    shiftToTargetExponent .binary64 mantissa exponent accuracy =
      (ExtendedMantissa.ofMantissaAndAccuracy mantissa accuracy >>> count, exponent + count) := by
  have target : Format.binary64.targetExponent (totalExponent mantissa exponent) =
      max (mantissa.log2 + exponent - 52) (-1074) := by
    rw [target_exponent, totalExponent]
    omega
  unfold shiftToTargetExponent shiftToExponent
  dsimp only
  rw [target, apart]

theorem shift_none (fits : mantissa < 2 ^ 53) (least : -1074 ≤ exponent) (accuracy : Accuracy) :
    shiftToTargetExponent .binary64 mantissa exponent accuracy =
      (.ofMantissaAndAccuracy mantissa accuracy, exponent) := by
  have log : mantissa.log2 ≤ 52 := by
    by_cases none : mantissa = 0
    · rw [none]
      decide
    · exact Nat.lt_succ_iff.mp ((Nat.log2_lt none).mpr fits)
  have apart : (max (mantissa.log2 + exponent - 52) (-1074) - exponent).toNat = 0 := by omega
  rw [shift_by apart, Int.natCast_zero, Int.add_zero]
  rfl

theorem shift_one (least : -1074 ≤ exponent) (accuracy : Accuracy) :
    ∃ extended : ExtendedMantissa, extended.mantissa = 2 ^ 52 ∧
      shiftToTargetExponent .binary64 (2 ^ 53) exponent accuracy = (extended, exponent + 1) := by
  have log : (2 ^ 53).log2 = 53 := Nat.log2_two_pow
  have apart : (max ((2 ^ 53).log2 + exponent - 52) (-1074) - exponent).toNat = 1 := by omega
  refine ⟨_, ?_, shift_by apart accuracy⟩
  change (ExtendedMantissa.ofMantissaAndAccuracy (2 ^ 53) accuracy).mantissa / 2 = 2 ^ 52
  rw [mantissa_of_accuracy]
  rfl

/-- Once shifted, digits are rounded at their exponent, or at the next one if rounding carries into
a new leading digit. -/
theorem round_shifted {extended : ExtendedMantissa} {accuracy : Accuracy} {start : Int}
    (sign : Sign)
    (shifted : shiftToTargetExponent .binary64 mantissa start accuracy = (extended, exponent))
    (present : 0 < extended.mantissa) (fits : extended.mantissa < 2 ^ 53) (least : -1074 ≤ exponent)
    (leading : extended.mantissa < 2 ^ 52 → exponent = -1074) :
    ∃ rounded last positive,
      roundWithAccuracy .binary64 sign mantissa start accuracy =
        .finite sign rounded last positive ∧
      Stored rounded last ∧
      (last = exponent ∨ last = exponent + 1 ∧ extended.mantissa + 1 = 2 ^ 53) := by
  obtain ⟨below, above⟩ := rounded_bounds extended
  have positive : 0 < extended.roundedMantissa := present.trans_le below
  unfold roundWithAccuracy
  rw [shifted]
  dsimp only
  by_cases carries : extended.roundedMantissa = 2 ^ 53
  · obtain ⟨final, leading, again⟩ := shift_one least .exact
    rw [carries, again]
    dsimp only
    have positive : 0 < final.mantissa := by omega
    rw [dif_neg positive.ne']
    exact ⟨_, _, positive, rfl, ⟨by omega, by omega, by omega⟩, .inr ⟨rfl, by omega⟩⟩
  · rw [shift_none (by omega) least]
    dsimp only
    simp only [mantissa_of_accuracy]
    rw [dif_neg positive.ne']
    exact ⟨_, _, positive, rfl, ⟨by omega, least, fun short => leading (by omega)⟩, .inl rfl⟩

/-- Digits that nearly fit move by at most one place, and only if the highest ones are all set. -/
theorem round_near (sign : Sign) (accuracy : Accuracy) (present : 0 < mantissa)
    (bound : mantissa ≤ 2 ^ 53) (least : -1074 ≤ exponent)
    (leading : mantissa < 2 ^ 52 → exponent = -1074) :
    ∃ rounded last positive,
      roundWithAccuracy .binary64 sign mantissa exponent accuracy =
        .finite sign rounded last positive ∧
      Stored rounded last ∧
      (last = exponent ∧ mantissa < 2 ^ 53 ∨ last = exponent + 1 ∧ 2 ^ 53 ≤ mantissa + 1) := by
  by_cases fits : mantissa < 2 ^ 53
  · have same := mantissa_of_accuracy mantissa accuracy
    obtain ⟨rounded, last, positive, ran, stored, here | ⟨next, full⟩⟩ :=
      round_shifted sign (shift_none fits least accuracy) (by omega) (by omega) least (by omega)
    · exact ⟨rounded, last, positive, ran, stored, .inl ⟨here, fits⟩⟩
    · exact ⟨rounded, last, positive, ran, stored, .inr ⟨next, by omega⟩⟩
  · obtain rfl : mantissa = 2 ^ 53 := by omega
    obtain ⟨extended, dropped, shifted⟩ := shift_one least accuracy
    obtain ⟨rounded, last, positive, ran, stored, here | ⟨_, full⟩⟩ :=
      round_shifted sign shifted (by omega) (by omega) (by omega) (by omega)
    · exact ⟨rounded, last, positive, ran, stored, .inr ⟨here, by omega⟩⟩
    · omega

end Shifting

section Quotient

variable {mantissa : Nat} {exponent : Int}

/-- The digits that the division of one by a number comes to before they are rounded. They start
at the place that the leading digit of the divisor leaves, or at the least exponent. -/
theorem quotient_of_one (stored : Stored mantissa exponent) (present : 0 < mantissa)
    (largest : exponent ≤ 971) :
    ∃ quotient start accuracy,
      divCore .binary64 (2 ^ 52) (-52) mantissa exponent = (quotient, start, accuracy) ∧
      0 < quotient ∧ quotient ≤ 2 ^ 53 ∧ (quotient < 2 ^ 52 → start = -1074) ∧
      start = max (-(mantissa.log2 : Int) - exponent - 53) (-1074) ∧
      (start ≠ -1074 → quotient = 2 ^ (53 + mantissa.log2) / mantissa) := by
  obtain ⟨low, high⟩ := (Nat.log2_eq_iff present.ne').mp rfl
  have log : mantissa.log2 ≤ 52 := Nat.lt_succ_iff.mp ((Nat.log2_lt present.ne').mpr stored.digits)
  have one : (2 ^ 52).log2 = 52 := Nat.log2_two_pow
  let start := max (-(mantissa.log2 : Int) - exponent - 53) (-1074)
  let count := (-52 - exponent - start).toNat
  have target : min (-52 - exponent) (Format.binary64.targetExponent
      (totalExponent (2 ^ 52) (-52) - totalExponent mantissa exponent)) = start := by
    rw [target_exponent, totalExponent, totalExponent, one]
    omega
  have divided : divCore .binary64 (2 ^ 52) (-52) mantissa exponent =
      (2 ^ (52 + count) / mantissa, start,
        accuracyOfFraction (2 ^ (52 + count) % mantissa) mantissa) := by
    unfold divCore
    dsimp only
    rw [target, Nat.shiftLeft_eq, ← Nat.pow_add]
  have full : start ≠ -1074 → 52 + count = 53 + mantissa.log2 := by omega
  have enough : 2 ^ 53 ≤ 2 ^ (52 + count) := Nat.pow_le_pow_right (by decide) (by omega)
  have few : 2 ^ (52 + count) ≤ 2 ^ mantissa.log2 * 2 ^ 53 := by
    rw [← Nat.pow_add]
    exact Nat.pow_le_pow_right (by decide) (by omega)
  refine ⟨_, _, _, divided, Nat.div_pos (stored.digits.le.trans enough) present, ?_, ?_, rfl, ?_⟩
  · exact Nat.div_le_of_le_mul (few.trans (Nat.mul_le_mul_right _ low))
  · intro short
    by_contra above
    rw [full above, Nat.div_lt_iff_lt_mul present] at short
    have reached : 2 ^ 52 * mantissa ≤ 2 ^ 52 * 2 ^ (mantissa.log2 + 1) :=
      Nat.mul_le_mul_left _ high.le
    rw [← Nat.pow_add, show 52 + (mantissa.log2 + 1) = 53 + mantissa.log2 by omega] at reached
    exact absurd short (not_lt.mpr reached)
  · intro above
    rw [full above]

theorem quotient_below (above : 2 ^ 50 < mantissa) : 2 ^ 103 / mantissa + 1 < 2 ^ 53 := by
  have bound : 2 ^ 103 / mantissa ≤ 2 ^ 103 / (2 ^ 50 + 1) := Nat.div_le_div_left above (by decide)
  have last : 2 ^ 103 / (2 ^ 50 + 1) + 1 < 2 ^ 53 := by decide
  omega

/-- The quotient of one and a stored number is rounded to a number again, whose exponent is in range
unless the divisor is at most `2 ^ -1024`. -/
theorem one_div_finite (stored : Stored mantissa exponent) (largest : exponent ≤ 971) (sign : Sign)
    (present : 0 < mantissa) :
    ∃ rounded last positive,
      UnpackedFloat.div .binary64 (.finite .positive (2 ^ 52) (-52) (by decide))
        (.finite sign mantissa exponent present) =
          .finite (.positive / sign) rounded last positive ∧
      Stored rounded last ∧ (last ≤ 971 ↔ ¬(exponent = -1074 ∧ mantissa ≤ 2 ^ 50)) := by
  obtain ⟨quotient, start, accuracy, divided, nonzero, bound, leading, begins, digits⟩ :=
    quotient_of_one stored present largest
  obtain ⟨rounded, last, positive, ran, kept, ends⟩ :=
    round_near (.positive / sign) accuracy nonzero bound (by omega) leading
  refine ⟨rounded, last, positive, ?_, kept, ?_⟩
  · unfold UnpackedFloat.div
    dsimp only
    rw [divided]
    exact ran
  by_cases least : exponent = -1074
  · have log : mantissa.log2 ≤ 52 :=
      Nat.lt_succ_iff.mp ((Nat.log2_lt present.ne').mpr stored.digits)
    have binary : start = 971 → quotient = 2 ^ 103 / mantissa := fun here => by
      rw [digits (by omega), show 53 + mantissa.log2 = 103 by omega]
    by_cases small : mantissa ≤ 2 ^ 50
    · have short : mantissa.log2 ≤ 50 :=
        Nat.lt_succ_iff.mp ((Nat.log2_lt present.ne').mpr (by omega))
      -- the power of two itself is shifted to the next exponent without a remainder
      have power : mantissa.log2 = 50 → quotient = 2 ^ 53 := fun log => by
        have low := ((Nat.log2_eq_iff present.ne').mp log).1
        rw [binary (by omega), show mantissa = 2 ^ 50 by omega]
        rfl
      omega
    · have long : 50 ≤ mantissa.log2 := (Nat.le_log2 present.ne').mpr (by omega)
      have below := quotient_below (not_le.mp small)
      omega
  · have log := log2_of_stored stored least
    have := stored.least
    omega

end Quotient

section Tests

open Relaxation.Arithmetic (isZero isFinite usable reciprocal)

theorem unpack_one : (1.0 : Float).toModel.unpack =
    .finite .positive (2 ^ 52) (-52) (by decide) := by
  have packed : (1.0 : Float).toModel =
      Float.Model.pack (.finite .positive (2 ^ 52) (-52) (by decide)) := by
    decide +kernel
  rw [packed]
  exact unpack_normal (by decide) (by decide) (by decide)

theorem is_zero_iff (value : Float) :
    isZero value = true ↔ ∃ sign, value.toModel.unpack = .zero sign := by
  have zero : (0.0 : Float).toModel = (0 : Float).toModel := by decide +kernel
  change value.toModel.unpack.beq (0.0 : Float).toModel.unpack = true ↔ _
  rw [zero, unpack_zero]
  rcases value.toModel.unpack with (_ | _) | _ | (_ | _) | ⟨_ | _, _, _, _⟩ <;>
    simp [UnpackedFloat.beq, UnpackedFloat.compare]

theorem is_finite_eq (value : Float) : isFinite value = value.toModel.unpack.isFinite := rfl

theorem is_nan_eq (value : Float) : value.isNaN = value.toModel.unpack.isNaN := rfl

theorem usable_iff (value : Float) : usable value = true ↔
    ∃ sign mantissa exponent positive,
      value.toModel.unpack = .finite sign mantissa exponent positive := by
  unfold usable
  rw [Bool.and_eq_true, Bool.not_eq_true', ← Bool.not_eq_true, is_zero_iff, is_finite_eq]
  rcases value.toModel.unpack with (_ | _) | _ | (_ | _) | ⟨_ | _, _, _, _⟩ <;>
    simp [UnpackedFloat.isFinite]
  all_goals assumption

/-- The greatest number whose reciprocal overflows, `2 ^ -1024`. -/
def overflowLimit : Float := .ofBits 0x0004000000000000

theorem unpack_overflow_limit : overflowLimit.toModel.unpack =
    .finite .positive (2 ^ 50) (-1074) (by decide) := by
  have packed : overflowLimit.toModel =
      Float.Model.pack (.finite .positive (2 ^ 50) (-1074) (by decide)) := by
    decide +kernel
  rw [packed]
  exact unpack_subnormal (by decide)

/-- A number one can divide by, but too close to zero to have a finite reciprocal. -/
def Tiny (value : Float) : Prop :=
  usable value = true ∧ Arithmetic.le value.abs overflowLimit = true

theorem tiny_iff {value : Float} {sign : Sign} {mantissa : Nat} {exponent : Int}
    {positive : 0 < mantissa}
    (unpacked : value.toModel.unpack = .finite sign mantissa exponent positive) :
    Tiny value ↔ exponent = -1074 ∧ mantissa ≤ 2 ^ 50 := by
  obtain ⟨stored, largest⟩ := stored_of_unpack unpacked
  have size : value.abs.toModel.unpack = .finite .positive mantissa exponent positive := by
    change (Float.Model.pack value.toModel.unpack.abs).unpack = _
    rw [unpacked]
    exact unpack_stored stored largest
  have divides : usable value = true := (usable_iff value).mpr ⟨_, _, _, _, unpacked⟩
  have least := stored.least
  unfold Tiny
  rw [Order.le_iff, size, unpack_overflow_limit, Order.le_iff_position]
  simp only [divides, true_and, Order.position, Option.some.injEq, ↓existsAndEq,
    Prod.Lex.toLex_le_toLex]
  omega

theorem unpack_reciprocal (value : Float) : (reciprocal value).toModel.unpack =
    (Float.Model.pack (UnpackedFloat.div .binary64
      (.finite .positive (2 ^ 52) (-52) (by decide)) value.toModel.unpack)).unpack := by
  rw [← unpack_one]
  rfl

theorem reciprocal_of_usable {value : Float} (divides : usable value = true) :
    isZero (reciprocal value) = false ∧ (reciprocal value).isNaN = false ∧
      (isFinite (reciprocal value) = true ↔ ¬Tiny value) := by
  obtain ⟨sign, mantissa, exponent, present, unpacked⟩ := (usable_iff value).mp divides
  obtain ⟨stored, largest⟩ := stored_of_unpack unpacked
  obtain ⟨rounded, last, positive, divided, kept, ends⟩ :=
    one_div_finite stored largest sign present
  have packed := unpack_reciprocal value
  rw [unpacked, divided] at packed
  rw [← Bool.not_eq_true, is_zero_iff, is_nan_eq, is_finite_eq, tiny_iff unpacked, ← ends]
  by_cases fits : last ≤ 971
  · rw [packed, unpack_stored kept fits]
    simp [UnpackedFloat.isFinite, UnpackedFloat.isNaN, fits]
  · rw [packed, unpack_overflow (by omega)]
    simp [UnpackedFloat.isFinite, UnpackedFloat.isNaN, fits]

theorem reciprocal_of_unusable {value : Float} (useless : usable value = false) :
    usable (reciprocal value) = false := by
  have other := mt (usable_iff value).mpr (Bool.not_eq_true _ ▸ useless)
  rw [← Bool.not_eq_true, usable_iff, unpack_reciprocal]
  rintro ⟨_, _, _, _, finite⟩
  cases unpacked : value.toModel.unpack with
  | finite sign mantissa exponent present => exact other ⟨_, _, _, _, unpacked⟩
  | notANumber =>
      rw [unpacked] at finite
      cases UnpackedFloat.unpack_packedNaN.symm.trans finite
  | infinity sign =>
      rw [unpacked] at finite
      cases UnpackedFloat.unpack_packedZero.symm.trans finite
  | zero sign =>
      rw [unpacked] at finite
      cases (unpack_infinity _).symm.trans finite

end Tests
end Rounding

namespace InverseDiagonal

open Relaxation.Arithmetic (isZero isFinite usable reciprocal)
open Rounding (Tiny)

theorem usable_or_tiny {value : Float} (divides : usable value = true) :
    usable (reciprocal value) = true ∨ Tiny value := by
  obtain ⟨nonzero, _, finite⟩ := Rounding.reciprocal_of_usable divides
  by_cases tiny : Tiny value
  · exact .inr tiny
  · refine .inl ?_
    rw [usable, nonzero, finite.mpr tiny]
    rfl

/-- A scalar diagonal is refused for its first entry without a usable reciprocal, tiny entries
apart: these are accepted, and what is stored for them is infinite. Everything else that is stored
is finite, and nothing that is stored is zero. -/
theorem scalars_inverted_unless_tiny (diagonal : Array Float) :
    (∃ row entry, factorize diagonal 1 = .error (.unusableDiagonal row) ∧
      diagonal[row]? = some entry ∧ usable (reciprocal entry) = false ∧ ¬Tiny entry ∧
      ∀ earlier other, earlier < row → diagonal[earlier]? = some other →
        usable (reciprocal other) = true ∨ Tiny other) ∨
    (factorize diagonal 1 = .ok (.reciprocals (diagonal.map reciprocal)) ∧
      ∀ entry ∈ diagonal, isZero (reciprocal entry) = false ∧ (reciprocal entry).isNaN = false ∧
        (isFinite (reciprocal entry) = true ↔ ¬Tiny entry)) := by
  have scalar : factorize diagonal 1 = ofScalars diagonal := if_pos rfl
  rw [scalar]
  cases found : diagonal.findIdx? fun value => !usable value with
  | some row =>
      obtain ⟨inside, useless, before⟩ := Array.findIdx?_eq_some_iff_getElem.mp found
      simp only [Bool.not_eq_true'] at useless before
      refine .inl ⟨row, diagonal[row], by rw [ofScalars, found], Array.getElem?_eq_getElem inside,
        Rounding.reciprocal_of_unusable useless, ?_, fun earlier other less here => ?_⟩
      · exact fun tiny => Bool.false_ne_true (useless.symm.trans tiny.1)
      · rw [Array.getElem?_eq_getElem (less.trans inside), Option.some.injEq] at here
        exact here ▸ usable_or_tiny (by simpa using before earlier less)
  | none =>
      refine .inr ⟨by rw [ofScalars, found]; rfl, fun entry member => ?_⟩
      refine Rounding.reciprocal_of_usable ?_
      simpa using Array.findIdx?_eq_none_iff.mp found entry member

/-- The least double is accepted as a diagonal, and an infinite value is stored for it. -/
theorem least_double_inverts_to_infinity :
    factorize #[Float.ofBits 1] 1 = .ok (.reciprocals #[reciprocal (Float.ofBits 1)]) ∧
      usable (reciprocal (Float.ofBits 1)) = false ∧
      (reciprocal (Float.ofBits 1)).isInf = true := by
  have divides : usable (Float.ofBits 1) = true := by decide +kernel
  refine ⟨?_, by decide +kernel, by decide +kernel⟩
  simp [factorize, ofScalars, divides, reciprocal]

end InverseDiagonal
end Relaxation

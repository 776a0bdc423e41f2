import Relaxation.Proofs.Exact
import Mathlib.Data.Prod.Lex

/-!
Comparison of rounded numbers. Among finite numbers it is a strict weak order: the two
zeros are equivalent, and no comparison holds of what is not a number.
-/

namespace Relaxation

/-- Laws of the strict comparison that rounding leaves. What is not below a finite number
need not be above it, since it may be no number at all. -/
class StrictOrder (α : Type) [Arithmetic α] : Prop where
  asymm : ∀ a b : α, Arithmetic.lt a b = true → Arithmetic.lt b a = false
  trans_of_not : ∀ a b c : α, Arithmetic.lt a b = true → Arithmetic.lt c b = false →
    Arithmetic.isFinite c = true → Arithmetic.lt a c = true

instance : StrictOrder ℚ where
  asymm _ _ below := decide_eq_false (of_decide_eq_true below).le.not_gt
  trans_of_not _ _ _ below above _ := decide_eq_true
    (lt_of_lt_of_le (of_decide_eq_true below) (not_lt.mp (of_decide_eq_false above)))

namespace StrictOrder

variable {α : Type} [Arithmetic α] [StrictOrder α]

theorem irrefl (a : α) : Arithmetic.lt a a = false := by
  cases below : Arithmetic.lt a a with
  | false => rfl
  | true => rw [← asymm a a below, below]

end StrictOrder

namespace Order

open Float.Model

/-- Where a number stands among all others: its range, and inside it the exponent and the
digits, which count down below zero. Nothing stands where there is no number. -/
def position : UnpackedFloat → Option (ℤ ×ₗ ℤ ×ₗ ℤ)
  | .notANumber => none
  | .infinity .negative => some (toLex (-2, toLex (0, 0)))
  | .finite .negative mantissa exponent _ => some (toLex (-1, toLex (-exponent, -(mantissa : ℤ))))
  | .zero _ => some (toLex (0, toLex (0, 0)))
  | .finite .positive mantissa exponent _ => some (toLex (1, toLex (exponent, (mantissa : ℤ))))
  | .infinity .positive => some (toLex (2, toLex (0, 0)))

theorem digits_lt_iff (exponent exponent' : ℤ) (mantissa mantissa' : ℕ) :
    (compare exponent exponent').then (compare mantissa mantissa') = .lt ↔
      exponent < exponent' ∨ exponent = exponent' ∧ mantissa < mantissa' := by
  rcases lt_trichotomy exponent exponent' with below | same | above
  · simp [compare_lt_iff_lt.mpr below, below]
  · simp [same, compare_lt_iff_lt]
  · simp [compare_gt_iff_gt.mpr above, above.not_gt, above.ne']

theorem digits_gt_iff (exponent exponent' : ℤ) (mantissa mantissa' : ℕ) :
    (compare exponent exponent').then (compare mantissa mantissa') = .gt ↔
      exponent' < exponent ∨ exponent = exponent' ∧ mantissa' < mantissa := by
  rcases lt_trichotomy exponent exponent' with below | same | above
  · simp [compare_lt_iff_lt.mpr below, below.not_gt, below.ne]
  · simp [same, compare_gt_iff_gt]
  · simp [compare_gt_iff_gt.mpr above, above]

theorem sign_lt : compare UnpackedFloat.Sign.negative UnpackedFloat.Sign.positive = .lt :=
  rfl

theorem lt_iff_position (a b : UnpackedFloat) :
    a.lt b = true ↔ ∃ low high, position a = some low ∧ position b = some high ∧ low < high := by
  rcases a with (_ | _) | _ | (_ | _) | ⟨_ | _, _, _, _⟩ <;>
    rcases b with (_ | _) | _ | (_ | _) | ⟨_ | _, _, _, _⟩ <;>
    simp [UnpackedFloat.lt, UnpackedFloat.compare, position, Prod.Lex.toLex_lt_toLex,
      digits_lt_iff, digits_gt_iff, sign_lt]

theorem sign_gt : compare UnpackedFloat.Sign.positive UnpackedFloat.Sign.negative = .gt :=
  rfl

theorem le_iff_position (a b : UnpackedFloat) :
    a.le b = true ↔ ∃ low high, position a = some low ∧ position b = some high ∧ low ≤ high := by
  rcases a with (_ | _) | _ | (_ | _) | ⟨_ | _, _, _, _⟩ <;>
    rcases b with (_ | _) | _ | (_ | _) | ⟨_ | _, _, _, _⟩ <;>
    simp [UnpackedFloat.le, UnpackedFloat.compare, position, Prod.Lex.toLex_le_toLex, sign_lt,
      sign_gt, Ordering.isLE_iff_ne_gt, Ordering.isGE_iff_ne_lt, digits_lt_iff,
      digits_gt_iff] <;> omega

theorem position_of_finite {a : UnpackedFloat} (finite : a.isFinite = true) :
    ∃ place, position a = some place := by
  rcases a with (_ | _) | _ | (_ | _) | ⟨_ | _, _, _, _⟩ <;>
    simp [UnpackedFloat.isFinite, position] at finite ⊢

theorem lt_iff (a b : Float) :
    Arithmetic.lt a b = true ↔ a.toModel.unpack.lt b.toModel.unpack = true := by
  simp only [Arithmetic.lt]
  exact decide_eq_true_iff.trans decide_eq_true_iff

theorem le_iff (a b : Float) :
    Arithmetic.le a b = true ↔ a.toModel.unpack.le b.toModel.unpack = true := by
  simp only [Arithmetic.le]
  exact decide_eq_true_iff.trans decide_eq_true_iff

theorem position_eq_none_iff (a : UnpackedFloat) : position a = none ↔ a.isNaN = true := by
  rcases a with (_ | _) | _ | (_ | _) | ⟨_ | _, _, _, _⟩ <;> simp [position, UnpackedFloat.isNaN]

/-- What a number is not below is at most that number, or no number at all. -/
theorem lt_eq_false_iff {a : Float} (number : a.isNaN = false) (b : Float) :
    Arithmetic.lt a b = false ↔ Arithmetic.le b a = true ∨ b.isNaN = true := by
  have placed : position a.toModel.unpack ≠ none := fun nowhere => by
    rw [position_eq_none_iff] at nowhere
    exact Bool.false_ne_true (number.symm.trans nowhere)
  obtain ⟨place, found⟩ := Option.ne_none_iff_exists'.mp placed
  rw [← Bool.not_eq_true, lt_iff, lt_iff_position, le_iff, le_iff_position, found]
  change _ ↔ _ ∨ b.toModel.unpack.isNaN = true
  rw [← position_eq_none_iff]
  cases position b.toModel.unpack with
  | none => simp
  | some other => simp

end Order

instance : StrictOrder Float where
  asymm a b below := by
    obtain ⟨low, high, left, right, less⟩ :=
      (Order.lt_iff_position _ _).mp ((Order.lt_iff a b).mp below)
    refine Bool.eq_false_iff.mpr fun above => ?_
    obtain ⟨low', high', right', left', less'⟩ :=
      (Order.lt_iff_position _ _).mp ((Order.lt_iff b a).mp above)
    rw [left] at left'
    rw [right] at right'
    cases left'
    cases right'
    exact less.asymm less'
  trans_of_not a b c below above finite := by
    obtain ⟨low, high, left, right, less⟩ :=
      (Order.lt_iff_position _ _).mp ((Order.lt_iff a b).mp below)
    obtain ⟨place, found⟩ := Order.position_of_finite finite
    have apart : ¬place < high := fun less' => by
      rw [(Order.lt_iff c b).mpr ((Order.lt_iff_position _ _).mpr
        ⟨place, high, found, right, less'⟩)] at above
      exact absurd above (by decide)
    exact (Order.lt_iff a c).mpr ((Order.lt_iff_position _ _).mpr
      ⟨low, place, left, found, less.trans_le (not_lt.mp apart)⟩)

end Relaxation

import Mathlib
import Relaxation.Proofs.Factor
import Relaxation.Proofs.Rounding

/-!
Which blocks have a factor, in exact arithmetic. As long as elimination goes on, the pivots so far
multiply to the determinants of the leading parts of the block; so it goes through to the end just
when no leading part is singular. Then the factor holds both triangular matrices, and substitution
finds the one solution of the block's system.
-/

namespace Relaxation.Block

variable {n : Nat}

def dense (block : Block ℚ n) :=
  Matrix.of fun i j : Fin n => block.entry i j

def leading (block : Block ℚ n) (k : Nat) (inside : k ≤ n) : Block ℚ k :=
  ofFn fun i j => block.entry (i.castLE inside) (j.castLE inside)

/-- The lower matrix of a compact factor, with the ones that are not stored. -/
def unitLower (factor : Block ℚ n) :=
  Matrix.of fun i j : Fin n => if i = j then 1 else if j < i then factor.entry i j else 0

def upper (factor : Block ℚ n) :=
  Matrix.of fun i j : Fin n => if j < i then 0 else factor.entry i j

def unpacked (factor : Block ℚ n) (i j : Fin n) : ℚ :=
  (∑ p, if p < i ∧ p < j then factor.entry i p * factor.entry p j else 0) +
    if j < i then factor.entry i j * factor.entry j j else factor.entry i j

theorem unit_lower_mul_upper (factor : Block ℚ n) (i j : Fin n) :
    (factor.unitLower * factor.upper) i j = factor.unpacked i j := by
  have term : ∀ p, factor.unitLower i p * factor.upper p j =
      (if p < i ∧ p < j then factor.entry i p * factor.entry p j else 0) +
        ((if p = j then if j < i then factor.entry i j * factor.entry j j else 0 else 0) +
          if p = i then if j < i then 0 else factor.entry i j else 0) := by
    intro p
    simp only [unitLower, upper, Matrix.of_apply]
    rcases lt_trichotomy p i with left | same | right
    · rcases lt_trichotomy p j with above | same | below
      · simp [left, above, left.ne', left.ne, above.ne, above.not_gt]
      · subst same
        simp [left, left.ne, left.ne']
      · simp [below, below.ne', below.not_gt, left.ne, left.ne']
    · subst same
      rcases lt_trichotomy p j with above | same | below
      · simp [above.ne, above.not_gt]
      · subst same
        simp
      · simp [below, below.ne']
    · simp [right.ne, right.ne', right.not_gt]
      intro same
      subst same
      exact fun below => absurd below right.not_gt
  rw [Matrix.mul_apply, Finset.sum_congr rfl fun p _ => term p, Finset.sum_add_distrib,
    Finset.sum_add_distrib, Finset.sum_ite_eq', Finset.sum_ite_eq', if_pos (Finset.mem_univ _),
    if_pos (Finset.mem_univ _)]
  unfold unpacked
  congr 1
  split <;> simp

theorem det_of_unpacked {block factor : Block ℚ n}
    (product : ∀ i j, block.entry i j = factor.unpacked i j) :
    block.dense.det = ∏ i, factor.entry i i := by
  have factored : block.dense = factor.unitLower * factor.upper := by
    ext i j
    rw [unit_lower_mul_upper]
    exact product i j
  have lower : factor.unitLower.det = 1 := by
    rw [Matrix.det_of_isLowerTriangular]
    · simp [unitLower]
    · intro i j above
      have above : i < j := OrderDual.toDual_lt_toDual.mp above
      simp [unitLower, above.ne, above.not_gt]
  have upper : factor.upper.det = ∏ i, factor.entry i i := by
    rw [Matrix.det_of_isUpperTriangular]
    · simp [upper]
    · intro i j below
      have below : j < i := below
      simp [Block.upper, below]
  rw [factored, Matrix.det_mul, lower, upper, one_mul]

section Leading

variable {k : Nat} (inside : k ≤ n)

theorem unpacked_leading (factor : Block ℚ n) (i j : Fin k) :
    (factor.leading k inside).unpacked i j =
      factor.unpacked (i.castLE inside) (j.castLE inside) := by
  obtain ⟨more, rfl⟩ := Nat.exists_eq_add_of_le inside
  have outside : ∀ p : Fin more, ¬(p.natAdd k < i.castLE inside ∧ p.natAdd k < j.castLE inside) := by
    intro p both
    have early : k + p.val < i.val := both.1
    have bound := i.isLt
    omega
  unfold unpacked
  rw [Fin.sum_univ_add, Finset.sum_eq_zero fun p _ => if_neg (outside p), add_zero]
  simp only [leading, entry_ofFn]
  rfl

/-- The pivots so far multiply to the leading minors, up to the one of the next pivot. -/
theorem Eliminated.minor {block current : Block ℚ n} {m : Nat}
    (done : Eliminated block current m) (reached : k ≤ m + 1) :
    (block.leading k inside).dense.det =
      ∏ i : Fin k, current.entry (i.castLE inside) (i.castLE inside) := by
  have product : ∀ i j, (block.leading k inside).entry i j =
      (current.leading k inside).unpacked i j := by
    intro i j
    rw [unpacked_leading, leading, entry_ofFn, done.product, unpacked]
    have used : ∀ {p : Fin n}, p < i.castLE inside → p.val < m := by
      intro p above
      have above : p.val < i.val := above
      have bound := i.isLt
      omega
    congr 1
    · apply Finset.sum_congr rfl
      intro p _
      simp only [and_iff_left_of_imp fun both : p < i.castLE inside ∧ p < j.castLE inside =>
        used both.1]
    · simp only [and_iff_left_of_imp (used (p := j.castLE inside))]
  rw [det_of_unpacked product]
  simp only [leading, entry_ofFn]

end Leading

def Regular (block : Block ℚ n) : Prop :=
  ∀ k (inside : k ≤ n), (block.leading k inside).dense.det ≠ 0

theorem Regular.dense {block : Block ℚ n} (regular : Regular block) : block.dense.det ≠ 0 := by
  have whole : block.leading n le_rfl = block := ext_of_entry fun i j => by
    rw [leading, entry_ofFn]
    rfl
  exact whole ▸ regular n le_rfl

theorem regular_of_factors {block factor : Block ℚ n} (factors : Factors block factor) :
    Regular block := by
  have done : Eliminated block factor n := ⟨fun p _ => factors.pivot p, by
    simpa only [Fin.is_lt, and_true] using factors.product⟩
  intro k inside
  rw [done.minor inside (Nat.le_succ_of_le inside)]
  exact Finset.prod_ne_zero_iff.mpr fun i _ => factors.pivot _

theorem regular_iff_factor (block : Block ℚ n) :
    Regular block ↔ ∃ factor, block.factor = .ok factor := by
  constructor
  · intro regular
    have ends := factor_ends_eliminated block
    generalize block.factor = answer at ends
    cases ends with
    | factored => exact ⟨_, rfl⟩
    | @stuck current pivot done useless =>
        -- the leading part that ends with the refused pivot is singular
        have zero : current.entry pivot pivot = 0 := by
          by_contra nonzero
          rw [(Exact.usable_iff _).mpr nonzero] at useless
          cases useless
        have singular := done.minor (Nat.succ_le_of_lt pivot.isLt) le_rfl
        rw [Finset.prod_eq_zero (Finset.mem_univ (Fin.last pivot.val)) zero] at singular
        exact absurd singular (regular _ _)
  · intro ⟨factor, ran⟩
    exact regular_of_factors (factors_of_factor ran)

/-- What a factorization and the substitution that belongs to it do to a block. -/
structure Decomposition (block : Block ℚ n) (answer : Except ℚ (Block ℚ n))
    (solve : Block ℚ n → Vector ℚ n → Vector ℚ n) : Prop where
  accepts : (∃ factor, answer = .ok factor) ↔ Regular block
  product : ∀ factor, answer = .ok factor → factor.unitLower * factor.upper = block.dense
  pivot : ∀ factor, answer = .ok factor → ∀ i, factor.upper i i ≠ 0
  solution : ∀ factor, answer = .ok factor → ∀ rhs x,
    block.dense.mulVec x.get = rhs.get ↔ x = solve factor rhs

theorem Factors.solution_iff {block factor : Block ℚ n} (factors : Factors block factor)
    (rhs x : Vector ℚ n) :
    block.dense.mulVec x.get = rhs.get ↔ x = factor.substitute rhs := by
  have solves : block.dense.mulVec (factor.substitute rhs).get = rhs.get :=
    funext fun i => substitute_solves factors rhs i
  have injective := Matrix.mulVec_injective_of_det_ne_zero (regular_of_factors factors).dense
  constructor
  · intro equation
    have same : x.get = (factor.substitute rhs).get := injective (equation.trans solves.symm)
    exact Vector.ext fun i bound => congrFun same ⟨i, bound⟩
  · rintro rfl
    exact solves

theorem decomposition_of_factor (block : Block ℚ n) :
    Decomposition block block.factor substitute where
  accepts := (regular_iff_factor block).symm
  product factor ran := by
    ext i j
    rw [unit_lower_mul_upper]
    exact ((factors_of_factor ran).product i j).symm
  pivot factor ran i := by
    simpa [upper] using (factors_of_factor ran).pivot i
  solution factor ran := (factors_of_factor ran).solution_iff

/-- In exact arithmetic a block of any size, and one of three on the unrolled path too, is
factored just when no leading part of it is singular, into a unit lower and an upper matrix
without zeros on its diagonal; substitution then gives the one solution there is. -/
theorem factored_iff_regular :
    (∀ (n : Nat) (block : Block ℚ n), Decomposition block block.factor substitute) ∧
      ∀ block : Block ℚ 3, Decomposition block block.factorTriple substituteTriple := by
  refine ⟨fun n block => decomposition_of_factor block, fun block => ?_⟩
  have unrolled : (substituteTriple : Block ℚ 3 → Vector ℚ 3 → Vector ℚ 3) = substitute :=
    funext fun factor => funext fun rhs => substitute_triple_eq mul_comm factor rhs
  rw [factor_triple_eq, unrolled]
  exact decomposition_of_factor block

/-- A block that is not singular, and is refused for its first pivot. -/
example : (ofFn fun i j : Fin 2 => if i = j then 0 else 1 : Block ℚ 2).factor = .error 0 :=
  rfl

end Relaxation.Block

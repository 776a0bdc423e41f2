import Mathlib
import Relaxation.Proofs.InverseDiagonal
import Relaxation.Proofs.Unrolled

/-!
In exact arithmetic the update of a row solves the row's system, under every kernel,
and adds the square of its increment under the diagonal block.
-/

namespace Relaxation.Kernel

def coefficient (diagonal : Array ℚ) (n row j k : Nat) : ℚ :=
  diagonal.getD (row * (n * n) + (j * n + k)) 0

/-- An update that solves its row: with `e` the product of the rest of the row, it is
the `x` with `D x = rhs - e`, and the square is that of `D (x - previous)`. -/
structure Solved (n row : Nat) (diagonal rhs product previous : Array ℚ) (update : RowUpdate ℚ) :
    Prop where
  balance : ∀ j, j < n →
    ∑ k ∈ Finset.range n, coefficient diagonal n row j k * update.values.getD k 0 =
      rhs.getD (row * n + j) 0 - product.getD (row * n + j) 0
  square : update.square = ∑ j ∈ Finset.range n,
    (∑ k ∈ Finset.range n, coefficient diagonal n row j k *
      (update.values.getD k 0 - previous.getD (row * n + k) 0)) ^ 2

section Inside

variable {sources : Sources ℚ} {iterate previous : Array ℚ} {row : Nat}

theorem scalar_solved
    (inverts : sources.diagonal.getD row 0 * sources.inverse.getD row 0 = 1)
    (diagonalLong : row < sources.diagonal.size) (inverseLong : row < sources.inverse.size)
    (rhsLong : row < sources.rhs.size) (iterateLong : row < iterate.size)
    (previousLong : row < previous.size) :
    Solved 1 row sources.diagonal sources.rhs iterate previous
      (scalar.rowUpdate sources iterate previous row) := by
  have update : scalar.rowUpdate sources iterate previous row =
      scalarUpdate sources.diagonal[row] sources.inverse[row] sources.rhs[row] iterate[row]
        previous[row] := by
    simp only [rowUpdate, scalar_update_eq diagonalLong inverseLong rhsLong iterateLong previousLong]
  simp only [Array.getD_eq_getD_getElem?, Array.getElem?_eq_getElem diagonalLong,
    Array.getElem?_eq_getElem inverseLong, Option.getD_some] at inverts
  rw [update]
  constructor
  · intro j bound
    have first : j = 0 := by omega
    subst first
    simp only [Finset.sum_range_one, coefficient, scalarUpdate, Array.getD_eq_getD_getElem?,
      Nat.mul_one, Nat.add_zero, Array.getElem?_eq_getElem diagonalLong,
      Array.getElem?_eq_getElem rhsLong, Array.getElem?_eq_getElem iterateLong, Option.getD_some,
      List.getD_cons_zero]
    calc sources.diagonal[row] * ((sources.rhs[row] - iterate[row]) * sources.inverse[row])
        = sources.diagonal[row] * sources.inverse[row] * (sources.rhs[row] - iterate[row]) := by
          ring
      _ = sources.rhs[row] - iterate[row] := by rw [inverts, one_mul]
  · simp only [Finset.sum_range_one, coefficient, scalarUpdate, Array.getD_eq_getD_getElem?,
      Nat.mul_one, Nat.add_zero, Array.getElem?_eq_getElem diagonalLong,
      Array.getElem?_eq_getElem previousLong, Option.getD_some, List.getD_cons_zero]
    ring

theorem getD_toList {n : Nat} (values : Vector ℚ n) (k : Fin n) :
    values.toList.getD k.val 0 = values.get k := by
  simp [Vector.get]

theorem solved_of_block {n : Nat} {diagonal rhs : Array ℚ} {x : Vector ℚ n} {square : ℚ}
    (balance : ∀ j : Fin n, ∑ k, (Block.stored diagonal (row * (n * n)) n).entry j k * x.get k =
      rhs.getD (row * n + j.val) 0 - iterate.getD (row * n + j.val) 0)
    (squares : square = ∑ j : Fin n, (∑ k : Fin n,
      (Block.stored diagonal (row * (n * n)) n).entry j k *
        (x.get k - previous.getD (row * n + k.val) 0)) ^ 2) :
    Solved n row diagonal rhs iterate previous ⟨x.toList, square⟩ := by
  constructor
  · intro j bound
    rw [Finset.sum_range, ← balance ⟨j, bound⟩]
    apply Finset.sum_congr rfl
    intro k _
    rw [getD_toList, Block.entry_stored]
    rfl
  · dsimp only
    rw [squares, Finset.sum_range]
    apply Finset.sum_congr rfl
    intro j _
    rw [Finset.sum_range]
    congr 1
    apply Finset.sum_congr rfl
    intro k _
    rw [getD_toList, Block.entry_stored]
    rfl

theorem block_solved {n : Nat} (small : n ≤ maxBlockSize)
    (factors : Block.Factors (Block.stored sources.diagonal (row * (n * n)) n)
      (Block.stored sources.inverse (row * (n * n)) n))
    (diagonalLong : row * (n * n) + n * n ≤ sources.diagonal.size)
    (inverseLong : row * (n * n) + n * n ≤ sources.inverse.size)
    (rhsLong : row * n + n ≤ sources.rhs.size)
    (iterateLong : row * n + n ≤ iterate.size) (previousLong : row * n + n ≤ previous.size) :
    Solved n row sources.diagonal sources.rhs iterate previous
      ((block n).rowUpdate sources iterate previous row) := by
  simp only [rowUpdate, block_update_eq small diagonalLong inverseLong rhsLong iterateLong
    previousLong, Block.window_stored]
  apply solved_of_block
  · intro j
    rw [Block.substitute_solves factors, ← Storage.window_getD rhsLong, ← Storage.window_getD iterateLong]
    simp [Vector.get]
    rfl
  · refine (foldl_add _ 0).trans ?_
    rw [zero_add]
    apply Finset.sum_congr rfl
    intro j _
    rw [foldl_add, zero_add, ← pow_two]
    congr 1
    apply Finset.sum_congr rfl
    intro k _
    rw [Storage.window_getD previousLong]

end Inside

theorem row_solved {kernel : Kernel} {rows row : Nat} {sources : Sources ℚ}
    {iterate previous : Array ℚ} (covered : kernel.Covered rows sources)
    (inverts : kernel.Inverts rows sources.diagonal sources.inverse) (inside : row < rows)
    (iterateLong : rows * kernel.blockSize ≤ iterate.size)
    (previousLong : rows * kernel.blockSize ≤ previous.size) :
    Solved kernel.blockSize row sources.diagonal sources.rhs iterate previous
      (kernel.rowUpdate sources iterate previous row) := by
  obtain ⟨small, diagonalLong, inverseLong, rhsLong⟩ := covered
  cases kernel with
  | scalar =>
      simp only [blockSize, inverseLength, Nat.mul_one] at *
      exact scalar_solved (inverts row inside) (by omega) (by omega) (by omega) (by omega)
        (by omega)
  | triple =>
      have same : triple.rowUpdate sources iterate previous row =
          (block 3).rowUpdate sources iterate previous row := by
        simp only [rowUpdate, update_row_triple]
      simp only [blockSize, inverseLength] at *
      rw [same]
      exact block_solved (by decide) (inverts row inside) (by omega) (by omega) (by omega)
        (by omega) (by omega)
  | block n =>
      simp only [blockSize, inverseLength] at *
      have vector := row_end_le n inside
      have square := row_end_le (n * n) inside
      rw [Nat.mul_assoc] at diagonalLong inverseLong
      exact block_solved small (inverts row inside) (by omega) (by omega) (by omega) (by omega)
        (by omega)

end Relaxation.Kernel

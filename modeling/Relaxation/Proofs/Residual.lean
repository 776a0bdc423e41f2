import Mathlib
import Relaxation.Proofs.Assembly
import Relaxation.Proofs.Loop
import Relaxation.Proofs.RowEquation
import Relaxation.Proofs.Setup
import Relaxation.Proofs.TwoLevels

/-!
In exact arithmetic the proxy that a sweep sums up is the residual of the iterate it
started from, whatever the kernel and the blocks of threads.
-/

namespace Relaxation

namespace Exact

theorem sum_list_range {β : Type} [AddCommMonoid β] (f : Nat → β) (n : Nat) :
    ((List.range n).map f).sum = ∑ i ∈ Finset.range n, f i :=
  rfl

theorem sum_rows (f : Nat → ℚ) (rows width : Nat) :
    ∑ row ∈ Finset.range rows, ∑ k ∈ Finset.range width, f (row * width + k) =
      ∑ i ∈ Finset.range (rows * width), f i := by
  induction rows with
  | zero => simp
  | succ rows ih => rw [Finset.sum_range_succ, ih, Nat.succ_mul, Finset.sum_range_add]

end Exact

namespace Matrix

variable {matrix : Matrix ℚ} {kernel : Kernel} {sources : Sources ℚ} {x : Array ℚ}

/-- One exact iteration from `x` to `x'`: `D x' + E x = rhs`, and the square is that of
the residual `rhs - A x`. -/
structure Relaxes (matrix : Matrix ℚ) (rhs x x' : Array ℚ) (square : ℚ) : Prop where
  balance : ∃ product, matrix.offDiagonalProduct x
      (Array.replicate (matrix.rows * matrix.blockSize) 0) = (.ok (), product) ∧
    ∀ row j, row < matrix.rows → j < matrix.blockSize →
      ∑ k ∈ Finset.range matrix.blockSize,
          Kernel.coefficient matrix.diagonal matrix.blockSize row j k *
            x'.getD (row * matrix.blockSize + k) 0 +
        product.getD (row * matrix.blockSize + j) 0 = rhs.getD (row * matrix.blockSize + j) 0
  residual : ∃ product, matrix.product x = .ok product ∧
    square = ∑ index ∈ Finset.range (matrix.rows * matrix.blockSize),
      (rhs.getD index 0 - product.getD index 0) ^ 2

structure Inverted (matrix : Matrix ℚ) (kernel : Kernel) (sources : Sources ℚ) : Prop where
  sound : matrix.Sound
  square : matrix.columns = matrix.rows
  blockSize : kernel.blockSize = matrix.blockSize
  covered : kernel.Covered matrix.rows sources
  inverts : kernel.Inverts matrix.rows sources.diagonal sources.inverse
  diagonal : ∀ row j k, row < matrix.rows → j < matrix.blockSize → k < matrix.blockSize →
    Kernel.coefficient sources.diagonal matrix.blockSize row j k =
      Kernel.coefficient matrix.diagonal matrix.blockSize row j k

theorem own_product_eq (matrix : Matrix ℚ) (x : Array ℚ) (row j : Nat) :
    matrix.ownProduct x row j = ∑ k ∈ Finset.range matrix.blockSize,
      Kernel.coefficient matrix.diagonal matrix.blockSize row j k *
        x.getD (row * matrix.blockSize + k) 0 := by
  unfold ownProduct
  rw [foldl_add, zero_add, Finset.sum_range]
  rfl

section Inverted

variable (inverted : matrix.Inverted kernel sources)
  (size : x.size = matrix.rows * matrix.blockSize)

include inverted size

theorem row_solved {row : Nat} (inside : row < matrix.rows) :
    Kernel.Solved matrix.blockSize row sources.diagonal sources.rhs (matrix.couplings x).toArray x
      (kernel.rowUpdate sources (matrix.couplings x).toArray x row) := by
  have product : matrix.rows * kernel.blockSize ≤ (matrix.couplings x).toArray.size := by
    rw [inverted.blockSize, List.size_toArray, length_couplings]
  have previous : matrix.rows * kernel.blockSize ≤ x.size := by
    rw [inverted.blockSize, size]
  have solved := Kernel.row_solved inverted.covered inverted.inverts inside product previous
  rwa [inverted.blockSize] at solved

theorem getD_next {row k : Nat} (inside : row < matrix.rows) (bound : k < matrix.blockSize) :
    (Solver.next matrix kernel sources x).getD (row * matrix.blockSize + k) 0 =
      (kernel.rowUpdate sources (matrix.couplings x).toArray x row).values.getD k 0 := by
  have uniform : ∀ row, row < matrix.rows →
      (kernel.rowUpdate sources (matrix.couplings x).toArray x row).values.length =
        matrix.blockSize := by
    intro row inside
    rw [← inverted.blockSize]
    apply Kernel.length_row_update inverted.covered inside
    · rw [inverted.blockSize, List.size_toArray, length_couplings]
    · rw [inverted.blockSize, size]
  have found := getElem?_flatMap_uniform
    (fun row => (kernel.rowUpdate sources (matrix.couplings x).toArray x row).values)
    matrix.blockSize matrix.rows uniform inside bound
  rw [Array.getD_eq_getD_getElem?, List.getD_eq_getElem?_getD, ← found, ← List.getElem?_toArray]
  rfl

theorem next_balance {row j : Nat} (inside : row < matrix.rows) (bound : j < matrix.blockSize) :
    ∑ k ∈ Finset.range matrix.blockSize,
        Kernel.coefficient matrix.diagonal matrix.blockSize row j k *
          (Solver.next matrix kernel sources x).getD (row * matrix.blockSize + k) 0 =
      sources.rhs.getD (row * matrix.blockSize + j) 0 - matrix.coupling x row j := by
  have product : (matrix.couplings x).toArray.getD (row * matrix.blockSize + j) 0 =
      matrix.coupling x row j := by
    rw [Array.getD_eq_getD_getElem?, List.getElem?_toArray, getElem?_couplings _ _ inside bound]
    rfl
  rw [← product, ← (row_solved inverted size inside).balance j bound]
  apply Finset.sum_congr rfl
  intro k member
  have listed := Finset.mem_range.mp member
  rw [getD_next inverted size inside listed, inverted.diagonal row j k inside bound listed]

theorem next_relaxes :
    matrix.Relaxes sources.rhs x (Solver.next matrix kernel sources x)
      (∑ row ∈ Finset.range matrix.rows,
        (kernel.rowUpdate sources (matrix.couplings x).toArray x row).square) := by
  have whole : x.size = matrix.columns * matrix.blockSize := by
    rw [inverted.square, size]
  constructor
  · refine ⟨_, off_diagonal_product_eq inverted.sound (le_of_eq whole.symm) (by simp),
      fun row j inside bound => ?_⟩
    have fits := Kernel.row_end_le matrix.blockSize inside
    have product : (Storage.overwrite (Array.replicate (matrix.rows * matrix.blockSize) (0 : ℚ)) 0
        (matrix.couplings x)).getD (row * matrix.blockSize + j) 0 = matrix.coupling x row j := by
      rw [Array.getD_eq_getD_getElem?, Storage.getElem?_overwrite_front _
        (by rw [length_couplings]; omega) (by simp [length_couplings]),
        getElem?_couplings _ _ inside bound]
      rfl
    rw [product, next_balance inverted size inside bound, sub_add_cancel]
  · obtain ⟨full, ran, _, found⟩ := product_eq inverted.sound whole
    refine ⟨full, ran, ?_⟩
    rw [← Exact.sum_rows]
    apply Finset.sum_congr rfl
    intro row member
    have inside := Finset.mem_range.mp member
    rw [(row_solved inverted size inside).square]
    apply Finset.sum_congr rfl
    intro j listed
    have bound := Finset.mem_range.mp listed
    -- the increment under the diagonal block is what the row still misses
    calc (∑ k ∈ Finset.range matrix.blockSize,
          Kernel.coefficient sources.diagonal matrix.blockSize row j k *
            ((kernel.rowUpdate sources (matrix.couplings x).toArray x row).values.getD k 0 -
              x.getD (row * matrix.blockSize + k) 0)) ^ 2
        = (∑ k ∈ Finset.range matrix.blockSize,
            Kernel.coefficient matrix.diagonal matrix.blockSize row j k *
              (Solver.next matrix kernel sources x).getD (row * matrix.blockSize + k) 0 -
            matrix.ownProduct x row j) ^ 2 := by
          rw [own_product_eq, ← Finset.sum_sub_distrib]
          congr 1
          apply Finset.sum_congr rfl
          intro k place
          have here := Finset.mem_range.mp place
          rw [getD_next inverted size inside here, inverted.diagonal row j k inside bound here,
            mul_sub]
      _ = (sources.rhs.getD (row * matrix.blockSize + j) 0 -
            full.getD (row * matrix.blockSize + j) 0) ^ 2 := by
          rw [next_balance inverted size inside bound, found row j inside bound, sub_sub]

end Inverted
end Matrix
end Relaxation

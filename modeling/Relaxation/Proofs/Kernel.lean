import Relaxation.Kernel
import Relaxation.Proofs.Storage

/-!
The update of a row as a value: inside the stored vectors it never faults, and it
reads its own row of every vector and nothing else.
-/

namespace Relaxation.Kernel

variable {α : Type}

def inverseLength (kernel : Kernel) (rows : Nat) : Nat :=
  match kernel with
  | .scalar => rows
  | _ => rows * kernel.blockSize * kernel.blockSize

structure Covered (kernel : Kernel) (rows : Nat) (sources : Sources α) : Prop where
  small : kernel.blockSize ≤ maxBlockSize
  diagonal : rows * kernel.blockSize * kernel.blockSize ≤ sources.diagonal.size
  inverse : kernel.inverseLength rows ≤ sources.inverse.size
  rhs : rows * kernel.blockSize ≤ sources.rhs.size

theorem Covered.mono {kernel : Kernel} {fewer rows : Nat} {sources : Sources α}
    (covered : kernel.Covered rows sources) (less : fewer ≤ rows) : kernel.Covered fewer sources := by
  have vector := Nat.mul_le_mul_right kernel.blockSize less
  have square := Nat.mul_le_mul_right kernel.blockSize vector
  refine ⟨covered.small, Nat.le_trans square covered.diagonal, ?_, Nat.le_trans vector covered.rhs⟩
  have inverse := covered.inverse
  cases kernel with
  | scalar => exact Nat.le_trans less inverse
  | triple => exact Nat.le_trans square inverse
  | block n => exact Nat.le_trans square inverse

theorem row_end_le {row rows : Nat} (width : Nat) (inside : row < rows) :
    row * width + width ≤ rows * width := by
  have next := Nat.mul_le_mul_right width inside
  rwa [Nat.succ_mul] at next

def SameRow (width row : Nat) (left right : Array α) : Prop :=
  left.size = right.size ∧ ∀ k, k < width → left[row * width + k]? = right[row * width + k]?

variable [Arithmetic α]

theorem update_row_local (kernel : Kernel) (sources : Sources α)
    {iterate iterate' previous previous' : Array α} {row : Nat}
    (sameIterate : SameRow kernel.blockSize row iterate iterate')
    (samePrevious : SameRow kernel.blockSize row previous previous') :
    kernel.updateRow sources iterate previous row =
      kernel.updateRow sources iterate' previous' row := by
  cases kernel with
  | scalar =>
      have first := Storage.fetch_congr (by simpa [blockSize] using sameIterate.2 0 Nat.one_pos)
      have second := Storage.fetch_congr (by simpa [blockSize] using samePrevious.2 0 Nat.one_pos)
      simp only [updateRow, first, second]
  | triple =>
      have first := Storage.span_congr sameIterate.1 sameIterate.2
      have second := Storage.span_congr samePrevious.1 samePrevious.2
      simp only [blockSize] at first second
      simp only [updateRow, first, second]
  | block n =>
      have first := Storage.span_congr sameIterate.1 sameIterate.2
      have second := Storage.span_congr samePrevious.1 samePrevious.2
      simp only [blockSize] at first second
      simp only [updateRow, first, second]

section Inside

variable {sources : Sources α} {iterate previous : Array α} {row : Nat}

theorem scalar_update_eq (diagonalLong : row < sources.diagonal.size)
    (inverseLong : row < sources.inverse.size) (rhsLong : row < sources.rhs.size)
    (iterateLong : row < iterate.size) (previousLong : row < previous.size) :
    scalar.updateRow sources iterate previous row =
      .ok (scalarUpdate sources.diagonal[row] sources.inverse[row] sources.rhs[row]
        iterate[row] previous[row]) := by
  simp only [updateRow, Storage.fetch_of_lt iterateLong, Storage.fetch_of_lt previousLong,
    Storage.fetch_of_lt diagonalLong, Storage.fetch_of_lt inverseLong, Storage.fetch_of_lt rhsLong,
    bind, Except.bind]
  rfl

theorem triple_update_eq (diagonalLong : row * 9 + 3 * 3 ≤ sources.diagonal.size)
    (inverseLong : row * 9 + 3 * 3 ≤ sources.inverse.size)
    (rhsLong : row * 3 + 3 ≤ sources.rhs.size)
    (iterateLong : row * 3 + 3 ≤ iterate.size) (previousLong : row * 3 + 3 ≤ previous.size) :
    triple.updateRow sources iterate previous row =
      .ok (tripleUpdate ⟨Storage.window sources.diagonal _ _ diagonalLong⟩
        ⟨Storage.window sources.inverse _ _ inverseLong⟩ (Storage.window sources.rhs _ _ rhsLong)
        (Storage.window iterate _ _ iterateLong) (Storage.window previous _ _ previousLong)) := by
  simp only [updateRow, Block.read, Storage.span_of_le iterateLong,
    Storage.span_of_le previousLong, Storage.span_of_le diagonalLong,
    Storage.span_of_le inverseLong, Storage.span_of_le rhsLong, bind, Except.bind]
  rfl

theorem block_update_eq {n : Nat} (small : n ≤ maxBlockSize)
    (diagonalLong : row * (n * n) + n * n ≤ sources.diagonal.size)
    (inverseLong : row * (n * n) + n * n ≤ sources.inverse.size)
    (rhsLong : row * n + n ≤ sources.rhs.size)
    (iterateLong : row * n + n ≤ iterate.size) (previousLong : row * n + n ≤ previous.size) :
    (block n).updateRow sources iterate previous row =
      .ok (blockUpdate ⟨Storage.window sources.diagonal _ _ diagonalLong⟩
        ⟨Storage.window sources.inverse _ _ inverseLong⟩ (Storage.window sources.rhs _ _ rhsLong)
        (Storage.window iterate _ _ iterateLong) (Storage.window previous _ _ previousLong)) := by
  simp only [updateRow, Block.read, Storage.span_of_le iterateLong,
    Storage.span_of_le previousLong, Storage.span_of_le diagonalLong,
    Storage.span_of_le inverseLong, Storage.span_of_le rhsLong, bind, Except.bind,
    if_neg (show ¬ maxBlockSize < n by omega)]
  rfl

end Inside

theorem update_row_succeeds {kernel : Kernel} {rows row : Nat} {sources : Sources α}
    {iterate previous : Array α} (covered : kernel.Covered rows sources) (inside : row < rows)
    (iterateLong : rows * kernel.blockSize ≤ iterate.size)
    (previousLong : rows * kernel.blockSize ≤ previous.size) :
    ∃ update, kernel.updateRow sources iterate previous row = .ok update ∧
      update.values.length = kernel.blockSize := by
  obtain ⟨small, diagonalLong, inverseLong, rhsLong⟩ := covered
  cases kernel with
  | scalar =>
      simp only [blockSize, inverseLength, Nat.mul_one] at *
      exact ⟨_, scalar_update_eq (by omega) (by omega) (by omega) (by omega) (by omega),
        by simp [scalarUpdate]⟩
  | triple =>
      simp only [blockSize, inverseLength] at *
      exact ⟨_, triple_update_eq (by omega) (by omega) (by omega) (by omega) (by omega),
        by simp [tripleUpdate]⟩
  | block n =>
      simp only [blockSize, inverseLength] at *
      have vector := row_end_le n inside
      have square := row_end_le (n * n) inside
      rw [Nat.mul_assoc] at diagonalLong inverseLong
      exact ⟨_, block_update_eq small (by omega) (by omega) (by omega) (by omega) (by omega),
        by simp [blockUpdate]⟩

/-- The update of a row, nothing where a row cannot be read. -/
def rowUpdate (kernel : Kernel) (sources : Sources α) (iterate previous : Array α) (row : Nat) :
    RowUpdate α :=
  match kernel.updateRow sources iterate previous row with
  | .ok update => update
  | .error _ => ⟨[], 0⟩

section Value

variable {kernel : Kernel} {rows row : Nat} {sources : Sources α} {iterate previous : Array α}

theorem update_row_eq (covered : kernel.Covered rows sources) (inside : row < rows)
    (iterateLong : rows * kernel.blockSize ≤ iterate.size)
    (previousLong : rows * kernel.blockSize ≤ previous.size) :
    kernel.updateRow sources iterate previous row =
      .ok (kernel.rowUpdate sources iterate previous row) := by
  obtain ⟨update, ran, _⟩ := update_row_succeeds covered inside iterateLong previousLong
  simp only [rowUpdate, ran]

theorem length_row_update (covered : kernel.Covered rows sources) (inside : row < rows)
    (iterateLong : rows * kernel.blockSize ≤ iterate.size)
    (previousLong : rows * kernel.blockSize ≤ previous.size) :
    (kernel.rowUpdate sources iterate previous row).values.length = kernel.blockSize := by
  obtain ⟨update, ran, length⟩ := update_row_succeeds covered inside iterateLong previousLong
  simpa only [rowUpdate, ran] using length

theorem row_update_congr {iterate' previous' : Array α} (covered : kernel.Covered rows sources)
    (inside : row < rows) (iterateLong : rows * kernel.blockSize ≤ iterate.size)
    (iterateLong' : rows * kernel.blockSize ≤ iterate'.size)
    (previousLong : rows * kernel.blockSize ≤ previous.size)
    (previousLong' : rows * kernel.blockSize ≤ previous'.size)
    (sameIterate : ∀ k, k < kernel.blockSize →
      iterate[row * kernel.blockSize + k]? = iterate'[row * kernel.blockSize + k]?)
    (samePrevious : ∀ k, k < kernel.blockSize →
      previous[row * kernel.blockSize + k]? = previous'[row * kernel.blockSize + k]?) :
    kernel.rowUpdate sources iterate previous row =
      kernel.rowUpdate sources iterate' previous' row := by
  have width := row_end_le kernel.blockSize inside
  unfold rowUpdate
  cases kernel with
  | scalar =>
      have first := Storage.fetch_congr (by simpa [blockSize] using sameIterate 0 Nat.one_pos)
      have second := Storage.fetch_congr (by simpa [blockSize] using samePrevious 0 Nat.one_pos)
      simp only [updateRow, first, second]
  | triple =>
      simp only [blockSize] at *
      simp only [updateRow, Storage.span_congr_inside (by omega) (by omega) sameIterate,
        Storage.span_congr_inside (by omega) (by omega) samePrevious]
  | block n =>
      simp only [blockSize] at *
      simp only [updateRow, Storage.span_congr_inside (by omega) (by omega) sameIterate,
        Storage.span_congr_inside (by omega) (by omega) samePrevious]

end Value
end Relaxation.Kernel

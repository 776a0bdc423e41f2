import Relaxation.Proofs.Loop
import Mathlib.Logic.Function.Iterate

/-!
The method itself, without devices: one pass over the block rows, in order, that solves each
of them for its own unknowns from the iterate before. Neither threads nor thread blocks
occur in it, and what the launches of an iteration leave behind is what it computes.
-/

namespace Relaxation

variable {α : Type} [Arithmetic α]

/-- The unknowns of a block row, from what its other entries leave of the right-hand side: a
product with the reciprocal, or a substitution with the factor of its diagonal block. -/
def InverseDiagonal.solveRow (inverse : InverseDiagonal α) (row : Nat) (rest : Nat → α) : List α :=
  match inverse with
  | .reciprocals values => [rest 0 * values.getD row 0]
  | .factors 3 values =>
    ((Block.stored values (row * (3 * 3)) 3).substituteTriple (Vector.ofFn fun k => rest k)).toList
  | .factors n values =>
    ((Block.stored values (row * (n * n)) n).substitute (Vector.ofFn fun k => rest k)).toList

/-- Every block row in its turn is solved for its unknowns, with those of `x` in all others. -/
def Matrix.plainSweep (matrix : Matrix α) (inverse : InverseDiagonal α) (rhs x : Array α) :
    Array α :=
  (List.range matrix.rows).foldl
    (fun y row => Storage.overwrite y (row * matrix.blockSize) <| inverse.solveRow row fun k =>
      rhs.getD (row * matrix.blockSize + k) 0 - matrix.coupling x row k)
    x

namespace Storage

omit [Arithmetic α] in
theorem foldl_overwrite (values : Array α) (width rows : Nat) {pieces : Nat → List α}
    (uniform : ∀ row, row < rows → (pieces row).length = width) :
    (List.range rows).foldl (fun y row => overwrite y (row * width) (pieces row)) values =
      overwrite values 0 ((List.range rows).flatMap pieces) := by
  induction rows with
  | zero => rfl
  | succ rows ih =>
      have before := fun row (inside : row < rows) => uniform row (Nat.lt_succ_of_lt inside)
      rw [List.range_succ, List.foldl_append, ih before, List.flatMap_append, overwrite_append,
        length_flatMap_uniform pieces width rows before, Nat.zero_add]
      simp

omit [Arithmetic α] in
theorem size_foldl_overwrite (rows : List Nat) (values : Array α) (width : Nat)
    (pieces : Nat → List α) :
    (rows.foldl (fun y row => overwrite y (row * width) (pieces row)) values).size =
      values.size := by
  induction rows generalizing values with
  | nil => rfl
  | cons row rest ih => rw [List.foldl_cons, ih, size_overwrite]

omit [Arithmetic α] in
theorem overwrite_all (values : Array α) {source : List α} (size : source.length = values.size) :
    overwrite values 0 source = source.toArray := by
  apply Array.ext_getElem?
  intro index
  by_cases inside : index < source.length
  · rw [getElem?_overwrite_front values inside (le_of_eq size), List.getElem?_toArray]
  · have outside : values.size ≤ index := by omega
    rw [getElem?_overwrite_outside values 0 source (.inr (by omega)), Array.getElem?_eq_none outside,
      List.getElem?_toArray, List.getElem?_eq_none (by omega)]

end Storage

theorem Matrix.size_plain_sweeps (matrix : Matrix α) (inverse : InverseDiagonal α)
    (rhs x : Array α) (t : Nat) : ((matrix.plainSweep inverse rhs)^[t] x).size = x.size := by
  induction t with
  | zero => rfl
  | succ t ih =>
      rw [Function.iterate_succ_apply', plainSweep, Storage.size_foldl_overwrite, ih]

theorem InverseDiagonal.solve_row_factors {n : Nat} (other : n ≠ 3) (values : Array α) (row : Nat)
    (rest : Nat → α) : (InverseDiagonal.factors n values).solveRow row rest =
      ((Block.stored values (row * (n * n)) n).substitute (Vector.ofFn fun k => rest k)).toList := by
  unfold solveRow
  split
  · next same => cases same
  · next same =>
      cases same
      exact absurd rfl other
  · next same =>
      cases same
      rfl

theorem InverseDiagonal.solve_row_congr {inverse : InverseDiagonal α} {row : Nat} {rest rest' : Nat → α}
    (positive : 0 < inverse.blockSize) (same : ∀ k, k < inverse.blockSize → rest k = rest' k) :
    inverse.solveRow row rest = inverse.solveRow row rest' := by
  cases inverse with
  | reciprocals values => simp only [solveRow, same 0 positive]
  | factors n values =>
      have vectors : (Vector.ofFn fun k : Fin n => rest k) = Vector.ofFn fun k : Fin n => rest' k :=
        congrArg Vector.ofFn (funext fun k => same k k.isLt)
      by_cases three : n = 3
      · subst three
        simp only [solveRow, vectors]
      · rw [solve_row_factors three, solve_row_factors three, vectors]

theorem InverseDiagonal.length_solve_row (inverse : InverseDiagonal α) (row : Nat) (rest : Nat → α) :
    (inverse.solveRow row rest).length = inverse.blockSize := by
  cases inverse with
  | reciprocals values => rfl
  | factors n values =>
      by_cases three : n = 3
      · subst three
        exact Vector.length_toList
      · rw [solve_row_factors three]
        exact Vector.length_toList

theorem Matrix.plain_sweep_eq {matrix : Matrix α} {inverse : InverseDiagonal α}
    (blockSize : inverse.blockSize = matrix.blockSize) (rhs x : Array α) :
    matrix.plainSweep inverse rhs x = Storage.overwrite x 0 ((List.range matrix.rows).flatMap
      fun row => inverse.solveRow row fun k =>
        rhs.getD (row * matrix.blockSize + k) 0 - matrix.coupling x row k) :=
  Storage.foldl_overwrite x matrix.blockSize matrix.rows fun row _ =>
    (inverse.length_solve_row row _).trans blockSize

theorem Matrix.plain_sweep_congr {matrix : Matrix α} {inverse : InverseDiagonal α}
    {rhs rhs' : Array α} (positive : 0 < inverse.blockSize)
    (blockSize : inverse.blockSize = matrix.blockSize)
    (same : ∀ index, index < matrix.rows * matrix.blockSize → rhs.getD index 0 = rhs'.getD index 0)
    (x : Array α) : matrix.plainSweep inverse rhs x = matrix.plainSweep inverse rhs' x := by
  apply List.foldl_ext
  intro y row member
  have bound := Kernel.row_end_le matrix.blockSize (List.mem_range.mp member)
  congr 1
  apply InverseDiagonal.solve_row_congr positive
  intro k inside
  rw [same _ (by omega)]

namespace Kernel

section Rows

variable {inverse : InverseDiagonal α} {sources : Sources α} {product previous : Array α}
  {rows row : Nat}

def rest (width : Nat) (rhs product : Array α) (row component : Nat) : α :=
  rhs.getD (row * width + component) 0 - product.getD (row * width + component) 0

theorem scalar_values_eq (diagonalLong : row < sources.diagonal.size)
    (inverseLong : row < sources.inverse.size) (rhsLong : row < sources.rhs.size)
    (productLong : row < product.size) (previousLong : row < previous.size) :
    (scalar.rowUpdate sources product previous row).values =
      (InverseDiagonal.reciprocals sources.inverse).solveRow row (rest 1 sources.rhs product row) := by
  simp only [rowUpdate,
    scalar_update_eq diagonalLong inverseLong rhsLong productLong previousLong]
  simp [scalarUpdate, InverseDiagonal.solveRow, rest, inverseLong, rhsLong, productLong]

theorem triple_values_eq (diagonalLong : row * 9 + 3 * 3 ≤ sources.diagonal.size)
    (inverseLong : row * 9 + 3 * 3 ≤ sources.inverse.size)
    (rhsLong : row * 3 + 3 ≤ sources.rhs.size)
    (productLong : row * 3 + 3 ≤ product.size) (previousLong : row * 3 + 3 ≤ previous.size) :
    (triple.rowUpdate sources product previous row).values =
      (InverseDiagonal.factors 3 sources.inverse).solveRow row (rest 3 sources.rhs product row) := by
  simp only [rowUpdate, triple_update_eq diagonalLong inverseLong rhsLong productLong previousLong,
    Block.window_stored, tripleUpdate, Block.difference_triple, Storage.window_getD]
  rfl

theorem block_values_eq {n : Nat} (other : n ≠ 3) (small : n ≤ maxBlockSize)
    (diagonalLong : row * (n * n) + n * n ≤ sources.diagonal.size)
    (inverseLong : row * (n * n) + n * n ≤ sources.inverse.size)
    (rhsLong : row * n + n ≤ sources.rhs.size)
    (productLong : row * n + n ≤ product.size) (previousLong : row * n + n ≤ previous.size) :
    ((block n).rowUpdate sources product previous row).values =
      (InverseDiagonal.factors n sources.inverse).solveRow row (rest n sources.rhs product row) := by
  rw [InverseDiagonal.solve_row_factors other]
  simp only [rowUpdate, block_update_eq small diagonalLong inverseLong rhsLong productLong
    previousLong, Block.window_stored, blockUpdate, Storage.window_getD]
  rfl

theorem row_values_eq (covered : (ofInverse inverse).Covered rows sources)
    (inverted : sources.inverse = inverse.values) (inside : row < rows)
    (productLong : rows * inverse.blockSize ≤ product.size)
    (previousLong : rows * inverse.blockSize ≤ previous.size) :
    ((ofInverse inverse).rowUpdate sources product previous row).values =
      inverse.solveRow row (rest inverse.blockSize sources.rhs product row) := by
  obtain ⟨small, diagonalLong, inverseLong, rhsLong⟩ := covered
  rw [block_size_of_inverse] at small diagonalLong rhsLong
  cases inverse with
  | reciprocals values =>
      cases inverted
      simp only [InverseDiagonal.blockSize, inverseLength, ofInverse, Nat.mul_one] at *
      exact scalar_values_eq (by omega) (by omega) (by omega) (by omega) (by omega)
  | factors n values =>
      cases inverted
      have vector := row_end_le n inside
      have square := row_end_le (n * n) inside
      simp only [InverseDiagonal.blockSize] at *
      by_cases three : n = 3
      · subst three
        simp only [inverseLength, ofInverse, blockSize] at *
        exact triple_values_eq (by omega) (by omega) (by omega) (by omega) (by omega)
      · rw [of_factors three] at inverseLong ⊢
        simp only [inverseLength, blockSize] at *
        rw [Nat.mul_assoc] at diagonalLong inverseLong
        exact block_values_eq three small (by omega) (by omega) (by omega) (by omega) (by omega)

end Rows
end Kernel

namespace Solver

variable {matrix : Matrix α} {inverse : InverseDiagonal α} {sources : Sources α} {x : Array α}

/-- The launches of an iteration do one plain sweep. -/
theorem next_eq_plain_sweep (positive : 0 < matrix.blockSize)
    (blockSize : inverse.blockSize = matrix.blockSize)
    (covered : (Kernel.ofInverse inverse).Covered matrix.rows sources)
    (inverted : 0 < matrix.rows → sources.inverse = inverse.values)
    (size : x.size = matrix.rows * matrix.blockSize) :
    next matrix (.ofInverse inverse) sources x = matrix.plainSweep inverse sources.rhs x := by
  have length := Matrix.length_couplings matrix x
  have solved : ∀ row, row < matrix.rows →
      ((Kernel.ofInverse inverse).rowUpdate sources (matrix.couplings x).toArray x row).values =
        inverse.solveRow row fun k => sources.rhs.getD (row * matrix.blockSize + k) 0 -
          matrix.coupling x row k := by
    intro row inside
    rw [Kernel.row_values_eq covered (inverted (by omega)) inside
      (by rw [List.size_toArray, length, blockSize]) (by rw [size, blockSize])]
    apply InverseDiagonal.solve_row_congr (blockSize ▸ positive)
    intro k bound
    rw [blockSize] at bound
    have coupled : (matrix.couplings x).toArray.getD (row * matrix.blockSize + k) 0 =
        matrix.coupling x row k := by
      rw [Array.getD_eq_getD_getElem?, List.getElem?_toArray,
        Matrix.getElem?_couplings matrix x inside bound]
      rfl
    rw [Kernel.rest, blockSize, coupled]
  unfold next Launch.relaxed
  rw [Matrix.plain_sweep_eq blockSize, Storage.overwrite_all x]
  · apply congrArg List.toArray
    exact List.flatMap_congr fun row member => solved row (List.mem_range.mp member)
  · rw [length_flatMap_uniform _ matrix.blockSize matrix.rows fun row _ =>
      (inverse.length_solve_row row _).trans blockSize, size]

end Solver

namespace Matrix

variable {matrix : Matrix α} {inverse : InverseDiagonal α} {x y : Array α}

theorem plain_sweep_local (sound : matrix.Sound) (square : matrix.columns = matrix.rows)
    (blockSize : inverse.blockSize = matrix.blockSize) (rhs : Array α)
    (long : matrix.rows * matrix.blockSize ≤ x.size)
    (long' : matrix.rows * matrix.blockSize ≤ y.size)
    (same : ∀ index, index < matrix.rows * matrix.blockSize → x[index]? = y[index]?) :
    (∀ index, index < matrix.rows * matrix.blockSize →
      (matrix.plainSweep inverse rhs x)[index]? = (matrix.plainSweep inverse rhs y)[index]?) ∧
    ∀ index, matrix.rows * matrix.blockSize ≤ index →
      (matrix.plainSweep inverse rhs x)[index]? = x[index]? := by
  have coupled : ∀ row, row < matrix.rows → ∀ k, k < inverse.blockSize →
      matrix.coupling x row k = matrix.coupling y row k := by
    intro row inside k bound
    apply coupling_congr sound inside (blockSize ▸ bound)
    intro index within
    rw [square] at within
    rw [Array.getD_eq_getD_getElem?, Array.getD_eq_getD_getElem?, same index within]
  have pieces : ((List.range matrix.rows).flatMap fun row => inverse.solveRow row fun k =>
        rhs.getD (row * matrix.blockSize + k) 0 - matrix.coupling x row k) =
      (List.range matrix.rows).flatMap fun row => inverse.solveRow row fun k =>
        rhs.getD (row * matrix.blockSize + k) 0 - matrix.coupling y row k := by
    apply List.flatMap_congr
    intro row member
    apply InverseDiagonal.solve_row_congr (blockSize ▸ sound.positive)
    intro k bound
    rw [coupled row (List.mem_range.mp member) k bound]
  have length := length_flatMap_uniform (fun row => inverse.solveRow row fun k =>
    rhs.getD (row * matrix.blockSize + k) 0 - matrix.coupling y row k) matrix.blockSize matrix.rows
      fun row _ => (inverse.length_solve_row row _).trans blockSize
  constructor
  · intro index inside
    rw [plain_sweep_eq blockSize, plain_sweep_eq blockSize, pieces,
      Storage.getElem?_overwrite_front x (by omega) (by omega),
      Storage.getElem?_overwrite_front y (by omega) (by omega)]
  · intro index behind
    rw [plain_sweep_eq blockSize, pieces,
      Storage.getElem?_overwrite_outside x 0 _ (.inr (by omega))]

theorem plain_sweeps_local (sound : matrix.Sound) (square : matrix.columns = matrix.rows)
    (blockSize : inverse.blockSize = matrix.blockSize) (rhs : Array α)
    (long : matrix.rows * matrix.blockSize ≤ x.size)
    (long' : matrix.rows * matrix.blockSize ≤ y.size)
    (same : ∀ index, index < matrix.rows * matrix.blockSize → x[index]? = y[index]?) (t : Nat) :
    (∀ index, index < matrix.rows * matrix.blockSize →
      ((matrix.plainSweep inverse rhs)^[t] x)[index]? =
        ((matrix.plainSweep inverse rhs)^[t] y)[index]?) ∧
    ∀ index, matrix.rows * matrix.blockSize ≤ index →
      ((matrix.plainSweep inverse rhs)^[t] x)[index]? = x[index]? := by
  induction t with
  | zero => exact ⟨same, fun _ _ => rfl⟩
  | succ t ih =>
      obtain ⟨front, tail⟩ := ih
      rw [← matrix.size_plain_sweeps inverse rhs x t] at long
      rw [← matrix.size_plain_sweeps inverse rhs y t] at long'
      rw [Function.iterate_succ_apply', Function.iterate_succ_apply']
      obtain ⟨front', tail'⟩ := plain_sweep_local sound square blockSize rhs long long' front
      exact ⟨front', fun index behind => (tail' index behind).trans (tail index behind)⟩

end Matrix
end Relaxation

import Mathlib
import Relaxation.Proofs.Diffusion
import Relaxation.Proofs.ExactSolve

/-!
Scalar systems with one value `d` on the diagonal. The residual of an iterate is the image of
the one before under the rest of the matrix, divided by `-d`. Where no row and no column of
the rest has an absolute sum above `s`, its square shrinks by `(s / d) ^ 2` in every iteration.
-/

namespace Relaxation

namespace Exact

/-- A matrix stretches no vector by more than what bounds its absolute row and column sums. -/
theorem schur {rows columns : Nat} (e : Nat → Nat → ℚ) (v : Nat → ℚ) {s : ℚ} (nonneg : 0 ≤ s)
    (byRow : ∀ i, i < rows → ∑ c ∈ Finset.range columns, |e i c| ≤ s)
    (byColumn : ∀ c, c < columns → ∑ i ∈ Finset.range rows, |e i c| ≤ s) :
    ∑ i ∈ Finset.range rows, (∑ c ∈ Finset.range columns, e i c * v c) ^ 2 ≤
      s ^ 2 * ∑ c ∈ Finset.range columns, v c ^ 2 := by
  have row : ∀ i ∈ Finset.range rows, (∑ c ∈ Finset.range columns, e i c * v c) ^ 2 ≤
      s * ∑ c ∈ Finset.range columns, |e i c| * v c ^ 2 := by
    intro i member
    -- Cauchy-Schwarz, weighed with the absolute coefficients
    calc (∑ c ∈ Finset.range columns, e i c * v c) ^ 2
        ≤ (∑ c ∈ Finset.range columns, |e i c|) *
            ∑ c ∈ Finset.range columns, |e i c| * v c ^ 2 := by
          apply Finset.sum_sq_le_sum_mul_sum_of_sq_le_mul
          · intro c _
            exact abs_nonneg _
          · intro c _
            positivity
          · intro c _
            rw [← mul_assoc, abs_mul_abs_self, mul_pow, ← pow_two]
      _ ≤ s * ∑ c ∈ Finset.range columns, |e i c| * v c ^ 2 := by
          apply mul_le_mul_of_nonneg_right (byRow i (Finset.mem_range.mp member))
          exact Finset.sum_nonneg fun c _ => by positivity
  calc ∑ i ∈ Finset.range rows, (∑ c ∈ Finset.range columns, e i c * v c) ^ 2
      ≤ ∑ i ∈ Finset.range rows, s * ∑ c ∈ Finset.range columns, |e i c| * v c ^ 2 :=
        Finset.sum_le_sum row
    _ = s * ∑ c ∈ Finset.range columns, (∑ i ∈ Finset.range rows, |e i c|) * v c ^ 2 := by
        rw [← Finset.mul_sum, Finset.sum_comm]
        simp only [Finset.sum_mul]
    _ ≤ s * ∑ c ∈ Finset.range columns, s * v c ^ 2 := by
        apply mul_le_mul_of_nonneg_left _ nonneg
        apply Finset.sum_le_sum
        intro c member
        exact mul_le_mul_of_nonneg_right (byColumn c (Finset.mem_range.mp member)) (sq_nonneg _)
    _ = s ^ 2 * ∑ c ∈ Finset.range columns, v c ^ 2 := by
        rw [← Finset.mul_sum, ← mul_assoc, pow_two]

end Exact

namespace Matrix

/-- A scalar matrix with the value `d` all along its diagonal, beside a rest whose absolute row
and column sums are at most `s`. -/
structure Uniform (matrix : Matrix ℚ) (d s : ℚ) : Prop where
  scalar : matrix.blockSize = 1
  diagonal : ∀ row, row < matrix.rows → matrix.diagonal.getD row 0 = d
  rows : ∀ row, row < matrix.rows → matrix.rowSum row ≤ s
  columns : ∀ column, column < matrix.columns → matrix.columnSum column ≤ s

def missing (matrix : Matrix ℚ) (rhs : Array ℚ) (d : ℚ) (x : Array ℚ) (row : Nat) : ℚ :=
  rhs.getD row 0 - matrix.coupling x row 0 - d * x.getD row 0

variable {matrix : Matrix ℚ} {kernel : Kernel} {sources : Sources ℚ} {x : Array ℚ} {d s : ℚ}

theorem own_product_uniform (uniform : matrix.Uniform d s) (x : Array ℚ) {row : Nat}
    (inside : row < matrix.rows) : matrix.ownProduct x row 0 = d * x.getD row 0 := by
  rw [own_product_eq, uniform.scalar, Finset.sum_range_one, Kernel.coefficient]
  simp [uniform.diagonal row inside]

section Step

variable (inverted : matrix.Inverted kernel sources) (uniform : matrix.Uniform d s)
  (size : x.size = matrix.rows * matrix.blockSize)

include inverted uniform size

theorem next_uniform {row : Nat} (inside : row < matrix.rows) :
    d * (Solver.next matrix kernel sources x).getD row 0 =
      sources.rhs.getD row 0 - matrix.coupling x row 0 := by
  have balance := next_balance inverted size (j := 0) inside (by rw [uniform.scalar]; omega)
  rw [uniform.scalar, Finset.sum_range_one, Kernel.coefficient] at balance
  simpa [uniform.diagonal row inside] using balance

theorem row_squares_uniform :
    Solver.rowSquares matrix kernel sources x =
      ∑ row ∈ Finset.range matrix.rows, matrix.missing sources.rhs d x row ^ 2 := by
  have whole : x.size = matrix.columns * matrix.blockSize := by rw [inverted.square, size]
  obtain ⟨full, ran, _, found⟩ := product_eq inverted.sound whole
  obtain ⟨product, ran', square⟩ := (next_relaxes inverted size).residual
  rw [← Except.ok.inj (ran.symm.trans ran'), uniform.scalar, Nat.mul_one] at square
  refine square.trans (Finset.sum_congr rfl fun row member => ?_)
  have inside := Finset.mem_range.mp member
  have value := found row 0 inside (by rw [uniform.scalar]; omega)
  rw [uniform.scalar, Nat.mul_one, Nat.add_zero, own_product_uniform uniform x inside] at value
  rw [missing, value]
  ring

/-- The residual of the next iterate is the rest of the matrix, applied to this one's. -/
theorem missing_next {row : Nat} (inside : row < matrix.rows) :
    d * matrix.missing sources.rhs d (Solver.next matrix kernel sources x) row =
      -∑ column ∈ Finset.range matrix.columns,
        matrix.offDiagonal row column * matrix.missing sources.rhs d x column := by
  -- an iteration moves every value by what its row missed, over `d`
  have moved : ∀ column ∈ Finset.range matrix.columns,
      matrix.offDiagonal row column * matrix.missing sources.rhs d x column =
        d * (matrix.offDiagonal row column *
          (Solver.next matrix kernel sources x).getD (column * matrix.blockSize + 0) 0) -
        d * (matrix.offDiagonal row column * x.getD (column * matrix.blockSize + 0) 0) := by
    intro column member
    have listed := Finset.mem_range.mp member
    rw [inverted.square] at listed
    have next := next_uniform inverted uniform size listed
    rw [uniform.scalar, Nat.mul_one, Nat.add_zero, missing, ← next]
    ring
  rw [Finset.sum_congr rfl moved, Finset.sum_sub_distrib, ← Finset.mul_sum, ← Finset.mul_sum,
    ← coupling_eq_sum inverted.sound _ inside, ← coupling_eq_sum inverted.sound _ inside, missing,
    next_uniform inverted uniform size inside]
  ring

theorem next_squares_le (nonzero : d ≠ 0) (nonneg : 0 ≤ s) :
    Solver.rowSquares matrix kernel sources (Solver.next matrix kernel sources x) ≤
      (s / d) ^ 2 * Solver.rowSquares matrix kernel sources x := by
  have size' : (Solver.next matrix kernel sources x).size = matrix.rows * matrix.blockSize :=
    Solver.size_next inverted.blockSize inverted.covered (le_of_eq size.symm)
  have positive : 0 < d ^ 2 := by positivity
  rw [row_squares_uniform inverted uniform size, row_squares_uniform inverted uniform size',
    div_pow, div_mul_eq_mul_div, le_div_iff₀ positive, mul_comm, Finset.mul_sum]
  calc ∑ row ∈ Finset.range matrix.rows,
        d ^ 2 * matrix.missing sources.rhs d (Solver.next matrix kernel sources x) row ^ 2
      = ∑ row ∈ Finset.range matrix.rows, (∑ column ∈ Finset.range matrix.columns,
          matrix.offDiagonal row column * matrix.missing sources.rhs d x column) ^ 2 := by
        apply Finset.sum_congr rfl
        intro row member
        rw [← mul_pow, missing_next inverted uniform size (Finset.mem_range.mp member), neg_sq]
    _ ≤ s ^ 2 * ∑ column ∈ Finset.range matrix.columns,
          matrix.missing sources.rhs d x column ^ 2 :=
        Exact.schur _ _ nonneg uniform.rows uniform.columns
    _ = s ^ 2 * ∑ row ∈ Finset.range matrix.rows, matrix.missing sources.rhs d x row ^ 2 := by
        rw [inverted.square]

theorem squares_succ_le (nonzero : d ≠ 0) (nonneg : 0 ≤ s) {t : Nat} (later : 1 ≤ t) :
    Solver.squaresFrom matrix kernel sources x (t + 1) ≤
      (s / d) ^ 2 * Solver.squaresFrom matrix kernel sources x t := by
  obtain ⟨t, rfl⟩ := Nat.exists_eq_add_of_le' later
  exact next_squares_le inverted uniform (Solver.size_iterates inverted size t) nonzero nonneg

theorem squares_le (nonzero : d ≠ 0) (nonneg : 0 ≤ s) (t : Nat) :
    Solver.squaresFrom matrix kernel sources x (t + 1) ≤
      ((s / d) ^ 2) ^ t * Solver.squaresFrom matrix kernel sources x 1 := by
  induction t with
  | zero => rw [pow_zero, one_mul]
  | succ t ih =>
      calc Solver.squaresFrom matrix kernel sources x (t + 1 + 1)
          ≤ (s / d) ^ 2 * Solver.squaresFrom matrix kernel sources x (t + 1) :=
            squares_succ_le inverted uniform size nonzero nonneg (Nat.succ_pos t)
        _ ≤ (s / d) ^ 2 *
              (((s / d) ^ 2) ^ t * Solver.squaresFrom matrix kernel sources x 1) :=
            mul_le_mul_of_nonneg_left ih (sq_nonneg _)
        _ = ((s / d) ^ 2) ^ (t + 1) * Solver.squaresFrom matrix kernel sources x 1 := by ring

theorem squares_nonneg {t : Nat} : 0 ≤ Solver.squaresFrom matrix kernel sources x t := by
  unfold Solver.squaresFrom
  rw [row_squares_uniform inverted uniform (Solver.size_iterates inverted size _)]
  exact Finset.sum_nonneg fun row _ => sq_nonneg _

end Step

theorem uniform_factorizes (uniform : matrix.Uniform d s) (sound : matrix.Sound) (nonzero : d ≠ 0) :
    ∃ inverse, InverseDiagonal.factorize matrix.diagonal matrix.blockSize = .ok inverse := by
  rw [uniform.scalar, InverseDiagonal.factorize, if_pos rfl]
  apply InverseDiagonal.of_scalars_succeeds
  intro value member
  obtain ⟨row, inside, rfl⟩ := Array.mem_iff_getElem.mp member
  have size := sound.diagonal
  rw [uniform.scalar, Nat.mul_one, Nat.mul_one] at size
  have same := uniform.diagonal row (by omega)
  rw [Array.getD_eq_getD_getElem?, Array.getElem?_eq_getElem inside, Option.getD_some] at same
  rwa [same]

end Matrix

namespace Model

section Weights

variable {line : Entry ℚ → Prop} [DecidablePred line]

theorem chain_weight_le (n : Nat) (coupling : ℚ) (west east : Nat)
    (onWest : ∀ row, 0 < row → line ⟨row, row - 1, coupling⟩ → row = west)
    (onEast : ∀ row, line ⟨row, row + 1, coupling⟩ → row = east) :
    Entry.weight line ((List.range n).flatMap (chainRow n coupling)) ≤ 2 * |coupling| := by
  have once : ∀ target, ∑ row ∈ Finset.range n, (if row = target then |coupling| else 0) ≤
      |coupling| := fun target =>
    Exact.sum_once_le (abs_nonneg _) (fun i j first second => first.trans second.symm) n
  calc Entry.weight line ((List.range n).flatMap (chainRow n coupling))
      = ∑ row ∈ Finset.range n, Entry.weight line (chainRow n coupling row) :=
        Entry.weight_flatMap _ n
    _ ≤ ∑ row ∈ Finset.range n, ((if row = west then |coupling| else 0) +
          if row = east then |coupling| else 0) := by
        apply Finset.sum_le_sum
        intro row _
        rw [chain_row_eq]
        exact weight_sides_le (onWest row) fun _ => onEast row
    _ ≤ 2 * |coupling| := by
        rw [Finset.sum_add_distrib]
        linarith [once west, once east]

end Weights

theorem chain_uniform (n : Nat) (diagonal coupling : ℚ) :
    (chainMatrix n diagonal coupling).Uniform diagonal (2 * |coupling|) where
  scalar := rfl
  diagonal row inside := by
    have within : row < n := inside
    simp [chainMatrix, Matrix.ofEntries, within]
  rows row inside := (Matrix.row_sum_le inside).trans <|
    chain_weight_le n coupling row row (fun _ _ here => here) fun _ here => here
  columns column _ := by
    refine (Matrix.column_sum_le column).trans ?_
    apply chain_weight_le n coupling (column + 1) (column - 1)
    · intro row positive here
      have met : row - 1 = column := here
      omega
    · intro row here
      have met : row + 1 = column := here
      omega

theorem grid_uniform (nx ny : Nat) : (gridMatrix nx ny 1).Uniform 5 4 where
  scalar := rfl
  diagonal row inside := by
    have entry : (Block.stored (gridDiagonal nx ny 1) (row * (1 * 1)) 1).entry 0 0 =
        cellEntry 1 0 0 := grid_block_entry inside 0 0
    rw [Block.entry_stored] at entry
    simpa [cellEntry, gridMatrix, Matrix.ofEntries] using entry
  rows _ inside := grid_row_sum_le nx ny 1 inside
  columns column _ := grid_column_sum_le nx ny 1 column

end Model

namespace Solver

variable [SquareRoot ℚ]

/-- Every solver for the matrix reads squares back that shrink by `(s / d) ^ 2` in each
iteration. Under a monotone root its history does not increase if `s ≤ |d|`. -/
def Decays (matrix : Matrix ℚ) (d s : ℚ) : Prop :=
  ∀ inverse, InverseDiagonal.factorize matrix.diagonal matrix.blockSize = .ok inverse ∨
      InverseDiagonal.ofBlocks matrix.diagonal matrix.blockSize = .ok inverse →
    ∀ (name : String) (config : Config ℚ) (device : Device ℚ),
    ∃ solver made, (setupWithInverse name matrix config inverse : DeviceM ℚ (Solver ℚ)) device =
        (.ok solver, made) ∧ MadeFor solver matrix inverse made ∧
      ∀ (ready : Device ℚ) (request : Request ℚ), MadeFor solver matrix inverse ready →
        Lent solver request ready →
        ∃ (values : Nat → Array ℚ) (squares : Nat → ℚ),
          values 0 = (ready.contents request.iterate).extract 0 solver.owned ∧
          (∀ t, matrix.Relaxes (ready.contents request.rhs) (values t) (values (t + 1))
            (squares (t + 1))) ∧
          (∀ t, 1 ≤ t → squares (t + 1) ≤ (s / d) ^ 2 * squares t) ∧
          (s < |d| → (s / d) ^ 2 < 1 ∧
            ∀ t, squares (t + 1) ≤ ((s / d) ^ 2) ^ t * squares 1) ∧
          ∀ (μ : Type) (policy : Policy ℚ μ) (statistics : Statistics) (memory : μ),
            ∃ last finished, solver.solve matrix request policy ⟨ready, statistics, memory⟩ =
              .done finished ∧ EndsWith solver.owned request values squares last finished ∧
              (s ≤ |d| → (∀ a b : ℚ, 0 ≤ a → a ≤ b → SquareRoot.root a ≤ SquareRoot.root b) →
                ∀ outcome, finished.1 = .ok outcome → ∀ i, i + 1 < outcome.history.size →
                  outcome.history.getD (i + 1) 0 ≤ outcome.history.getD i 0)

theorem EndsWith.history_falls {μ : Type} {owned last : Nat} {request : Request ℚ}
    {values : Nat → Array ℚ} {squares : Nat → ℚ}
    {finished : Except (Failure ℚ) (Outcome ℚ) × SolveScope ℚ μ}
    (ends : EndsWith owned request values squares last finished)
    (falls : ∀ t, 1 ≤ t → squares (t + 1) ≤ squares t) (nonneg : ∀ t, 0 ≤ squares t)
    (monotone : ∀ a b : ℚ, 0 ≤ a → a ≤ b → SquareRoot.root a ≤ SquareRoot.root b)
    {outcome : Outcome ℚ} (answered : finished.1 = .ok outcome) {i : Nat}
    (inside : i + 1 < outcome.history.size) :
    outcome.history.getD (i + 1) 0 ≤ outcome.history.getD i 0 := by
  rcases ends.result with ⟨_, _, none⟩ | ⟨_, failed⟩ | ⟨_, other, same, _, history, _⟩
  · cases Except.ok.inj (none.symm.trans answered)
    exact absurd inside (Nat.not_lt_zero _)
  · cases failed.symm.trans answered
  · cases Except.ok.inj (same.symm.trans answered)
    rw [history] at inside ⊢
    have bound : i + 1 < last := by simpa [residuals] using inside
    have before : i < last := by omega
    simp only [residuals, Array.getD_eq_getD_getElem?, List.getElem?_toArray, List.getElem?_map,
      List.getElem?_range bound, List.getElem?_range before, Option.map_some, Option.getD_some]
    exact monotone _ _ (nonneg _) (falls (i + 1) (Nat.succ_pos i))

theorem decays_of_uniform {rows : Nat} {diagonal : Array ℚ} {entries : List (Entry ℚ)}
    {matrix : Matrix ℚ} {d s : ℚ}
    (assembled : Matrix.assemble rows rows 1 diagonal entries = .ok matrix)
    (uniform : matrix.Uniform d s) (nonzero : d ≠ 0) (nonneg : 0 ≤ s) : Decays matrix d s := by
  intro inverse factored name config device
  have sound := Matrix.sound_of_assemble assembled
  have small : matrix.blockSize ≤ maxBlockSize := by
    rw [uniform.scalar]
    decide
  obtain ⟨blockSize, count, length, _⟩ := Kernel.inverts_of_factorized sound.diagonal factored
  obtain ⟨solver, made, ran, fits, _, _, alone, _⟩ :=
    setup_run name config sound small ⟨blockSize, count, length⟩ device
  refine ⟨solver, made, ran, fits, fun ready request fits' lent => ?_⟩
  obtain ⟨inverted, size, ends⟩ :=
    factored_solve assembled (by decide) factored alone fits' lent
  have shrinks : s ≤ |d| → (s / d) ^ 2 ≤ 1 := by
    intro bound
    rw [div_pow, div_le_one (by positivity), ← sq_abs d]
    exact pow_le_pow_left₀ nonneg bound 2
  refine ⟨iterates matrix solver.kernel (reads solver request ready)
      ((ready.contents request.iterate).extract 0 solver.owned),
    squaresFrom matrix solver.kernel (reads solver request ready)
      ((ready.contents request.iterate).extract 0 solver.owned), rfl,
    fun t => Matrix.next_relaxes inverted (size_iterates inverted size t),
    fun t later => Matrix.squares_succ_le inverted uniform size nonzero nonneg later,
    fun less => ⟨?_, Matrix.squares_le inverted uniform size nonzero nonneg⟩,
    fun μ policy statistics memory => ?_⟩
  · rw [div_pow, div_lt_one (by positivity), ← sq_abs d]
    exact pow_lt_pow_left₀ less nonneg two_ne_zero
  · obtain ⟨last, finished, ran, good⟩ := ends μ policy statistics memory
    refine ⟨last, finished, ran, good, fun bound monotone outcome answered i inside => ?_⟩
    refine good.history_falls (fun t later => ?_)
      (fun t => Matrix.squares_nonneg inverted uniform size) monotone answered inside
    exact (Matrix.squares_succ_le inverted uniform size nonzero nonneg later).trans
      (mul_le_of_le_one_left (Matrix.squares_nonneg inverted uniform size) (shrinks bound))

/-- In exact arithmetic, for a scalar matrix without ghost columns whose diagonal is `d`
throughout, and for any bound `s` on the absolute sums of its rows and columns beside the
diagonal: the square read back in each iteration is at most `(s / d) ^ 2` times the one before.
A chain has the bound `2 |coupling|`, a scalar diffusion problem the bound `4`. -/
theorem uniform_residuals_decay :
    (∀ (rows : Nat) (diagonal : Array ℚ) (entries : List (Entry ℚ)) (matrix : Matrix ℚ)
      (d s : ℚ), Matrix.assemble rows rows 1 diagonal entries = .ok matrix →
      matrix.Uniform d s → d ≠ 0 → 0 ≤ s →
      (∃ inverse, InverseDiagonal.factorize matrix.diagonal matrix.blockSize = .ok inverse) ∧
        Decays matrix d s) ∧
    (∀ (n : Nat) (d coupling : ℚ), d ≠ 0 → ∃ matrix, Model.chain n d coupling = .ok matrix ∧
      Decays matrix d (2 * |coupling|)) ∧
    ∀ nx ny : Nat, 0 < nx → 0 < ny → ∃ matrix, Model.diffusion nx ny 1 = .ok matrix ∧
      Decays matrix 5 4 := by
  refine ⟨fun rows diagonal entries matrix d s assembled uniform nonzero nonneg => ?_,
    fun n d coupling nonzero => ?_, fun nx ny wide high => ?_⟩
  · exact ⟨Matrix.uniform_factorizes uniform (Matrix.sound_of_assemble assembled) nonzero,
      decays_of_uniform assembled uniform nonzero nonneg⟩
  · have built := Model.chain_ok n d coupling
    exact ⟨_, built, decays_of_uniform built (Model.chain_uniform n d coupling) nonzero
      (by positivity)⟩
  · exact ⟨_, Model.diffusion_ok wide high Nat.one_pos,
      decays_of_uniform (Model.grid_assembled nx ny Nat.one_pos) (Model.grid_uniform nx ny)
        (by norm_num) (by norm_num)⟩

omit [SquareRoot ℚ] in
/-- A chain of three rows whose neighbors weigh as much as its diagonal. -/
theorem balanced_chain_decays :
    ∃ (matrix : Matrix ℚ) (values : Nat → Array ℚ) (squares : Nat → ℚ),
      Model.chain 3 2 (-1) = .ok matrix ∧ values 0 = #[1, 0, 0] ∧
      (∀ t, matrix.Relaxes #[1, 2, 3] (values t) (values (t + 1)) (squares (t + 1))) ∧
      ∀ t, 1 ≤ t → squares (t + 1) ≤ squares t := by
  have : SquareRoot ℚ := ⟨id⟩
  have uniform : (Model.chainMatrix 3 2 (-1 : ℚ)).Uniform 2 2 := by
    have bounded := Model.chain_uniform 3 2 (-1)
    rwa [abs_neg, abs_one, mul_one] at bounded
  obtain ⟨⟨inverse, factored⟩, decays⟩ := uniform_residuals_decay.1 3 _ _ _ 2 2
    (Model.chain_ok 3 2 (-1)) uniform (by norm_num) (by norm_num)
  obtain ⟨solver, made, _, fits, runs⟩ :=
    decays inverse (.inl factored) "chain" .standard (.create .standard)
  have owned : solver.owned = 3 := by
    have sound := Matrix.sound_of_assemble (Model.chain_ok 3 2 (-1 : ℚ))
    obtain ⟨width, _⟩ := Kernel.inverts_of_factorized sound.diagonal (.inl factored)
    rw [Solver.owned, fits.rows, fits.kernel, Kernel.block_size_of_inverse, width]
    rfl
  obtain ⟨request, ready, fits', lent, rhsHolds, startHolds, _, _⟩ :=
    fits.upload (by omega) #[1, 2, 3] #[1, 0, 0] (by simp [owned]) (by simp [owned]) 1
  obtain ⟨values, squares, start, steps, shrinks, _⟩ := runs ready request fits' lent
  rw [startHolds, owned] at start
  rw [rhsHolds] at steps
  refine ⟨_, values, squares, Model.chain_ok 3 2 (-1), start, steps, fun t later => ?_⟩
  have bound := shrinks t later
  rwa [div_self two_ne_zero, one_pow, one_mul] at bound

end Solver
end Relaxation

import Mathlib
import Relaxation.Proofs.Diffusion
import Relaxation.Proofs.ExactSolve
import Relaxation.Proofs.Process

/-!
Where the diagonal blocks outweigh the rest of their rows, every exact iteration brings the
iterate closer to the solution, by the ratio of the two weights. The diffusion problem has the
ratio eight ninths on every grid and for every block size.
-/

namespace Relaxation

namespace Exact

def deviation (count : Nat) (x y : Array ℚ) : ℚ :=
  (Finset.range count).fold max 0 fun index => |x.getD index 0 - y.getD index 0|

variable {count : Nat} {x y : Array ℚ}

theorem deviation_nonneg (count : Nat) (x y : Array ℚ) : 0 ≤ deviation count x y :=
  (Finset.le_fold_max 0).mpr (.inl (le_refl 0))

theorem le_deviation {index : Nat} (inside : index < count) :
    |x.getD index 0 - y.getD index 0| ≤ deviation count x y :=
  (Finset.le_fold_max _).mpr (.inr ⟨index, Finset.mem_range.mpr inside, le_refl _⟩)

theorem deviation_le {bound : ℚ} (nonneg : 0 ≤ bound)
    (close : ∀ index, index < count → |x.getD index 0 - y.getD index 0| ≤ bound) :
    deviation count x y ≤ bound :=
  (Finset.fold_max_le _).mpr
    ⟨nonneg, fun index member => close index (Finset.mem_range.mp member)⟩

end Exact

namespace Matrix

/-- Diagonal blocks that outweigh their rows by a margin, beside a rest of bounded weight. -/
structure Damped (matrix : Matrix ℚ) (margin weight : ℚ) : Prop where
  outweighs : ∀ row, row < matrix.rows →
    (Block.stored matrix.diagonal (row * (matrix.blockSize * matrix.blockSize))
      matrix.blockSize).Outweighs margin
  rest : ∀ row, row < matrix.rows → matrix.rowSum row ≤ weight

def Solves (matrix : Matrix ℚ) (rhs x : Array ℚ) : Prop :=
  ∀ row j, row < matrix.rows → j < matrix.blockSize →
    matrix.coupling x row j + matrix.ownProduct x row j =
      rhs.getD (row * matrix.blockSize + j) 0

variable {matrix : Matrix ℚ} {kernel : Kernel} {sources : Sources ℚ} {x reference : Array ℚ}
  {margin weight : ℚ}

/-- Under its own block the next error of a row is what the rest of the row makes of the last. -/
theorem next_error (inverted : matrix.Inverted kernel sources)
    (size : x.size = matrix.rows * matrix.blockSize) (solves : matrix.Solves sources.rhs reference)
    {row j : Nat} (inside : row < matrix.rows) (bound : j < matrix.blockSize) :
    ∑ k ∈ Finset.range matrix.blockSize,
        Kernel.coefficient matrix.diagonal matrix.blockSize row j k *
          ((Solver.next matrix kernel sources x).getD (row * matrix.blockSize + k) 0 -
            reference.getD (row * matrix.blockSize + k) 0) =
      matrix.coupling reference row j - matrix.coupling x row j := by
  have next := next_balance inverted size inside bound
  have fixed := solves row j inside bound
  rw [own_product_eq] at fixed
  simp only [mul_sub, Finset.sum_sub_distrib]
  rw [next, ← fixed]
  ring

theorem next_deviation_le (inverted : matrix.Inverted kernel sources)
    (size : x.size = matrix.rows * matrix.blockSize) (solves : matrix.Solves sources.rhs reference)
    (damped : matrix.Damped margin weight) (positive : 0 < margin) (nonneg : 0 ≤ weight) :
    Exact.deviation (matrix.rows * matrix.blockSize) (Solver.next matrix kernel sources x)
        reference ≤
      weight / margin * Exact.deviation (matrix.rows * matrix.blockSize) x reference := by
  have far := Exact.deviation_nonneg (matrix.rows * matrix.blockSize) x reference
  apply Exact.deviation_le (by positivity)
  intro index inside
  -- the index as a row and a component of it
  have some : 0 < matrix.blockSize := inverted.sound.positive
  have row : index / matrix.blockSize < matrix.rows := Nat.div_lt_of_lt_mul (by rwa [Nat.mul_comm])
  have place : index / matrix.blockSize * matrix.blockSize + index % matrix.blockSize = index :=
    Nat.div_add_mod' index matrix.blockSize
  generalize index / matrix.blockSize = r at row place
  let error : Fin matrix.blockSize → ℚ := fun k =>
    (Solver.next matrix kernel sources x).getD (r * matrix.blockSize + k.val) 0 -
      reference.getD (r * matrix.blockSize + k.val) 0
  have solved : ∀ j, ∑ k, (Block.stored matrix.diagonal
      (r * (matrix.blockSize * matrix.blockSize)) matrix.blockSize).entry j k * error k =
        matrix.coupling reference r j.val - matrix.coupling x r j.val := by
    intro j
    rw [← next_error inverted size solves row j.isLt, Finset.sum_range]
    apply Finset.sum_congr rfl
    intro k _
    rw [Block.entry_stored]
    rfl
  have small : ∀ j : Fin matrix.blockSize,
      |matrix.coupling reference r j.val - matrix.coupling x r j.val| ≤
        weight * Exact.deviation (matrix.rows * matrix.blockSize) x reference := by
    intro j
    rw [abs_sub_comm]
    refine (abs_coupling_sub_le inverted.sound row fun column listed => ?_).trans
      (mul_le_mul_of_nonneg_right (damped.rest r row) far)
    apply Exact.le_deviation
    rw [inverted.square] at listed
    have fits := Kernel.row_end_le matrix.blockSize listed
    omega
  -- the block damps what the rest of the row puts into its error
  have held : margin * |error ⟨index % matrix.blockSize, Nat.mod_lt _ some⟩| ≤ _ :=
    (damped.outweighs r row).damps (le_of_lt positive) solved small _
  dsimp only [error] at held
  rw [place] at held
  rw [div_mul_eq_mul_div, le_div_iff₀ positive, mul_comm]
  exact held

theorem iterates_deviation_le (inverted : matrix.Inverted kernel sources)
    (size : x.size = matrix.rows * matrix.blockSize) (solves : matrix.Solves sources.rhs reference)
    (damped : matrix.Damped margin weight) (positive : 0 < margin) (nonneg : 0 ≤ weight) (t : Nat) :
    Exact.deviation (matrix.rows * matrix.blockSize) (Solver.iterates matrix kernel sources x t)
        reference ≤
      (weight / margin) ^ t * Exact.deviation (matrix.rows * matrix.blockSize) x reference := by
  induction t with
  | zero =>
      rw [pow_zero, one_mul]
      exact le_refl _
  | succ t ih =>
      calc Exact.deviation (matrix.rows * matrix.blockSize)
            (Solver.iterates matrix kernel sources x (t + 1)) reference
          ≤ weight / margin * Exact.deviation (matrix.rows * matrix.blockSize)
              (Solver.iterates matrix kernel sources x t) reference :=
            next_deviation_le inverted (Solver.size_iterates inverted size t) solves damped positive
              nonneg
        _ ≤ weight / margin * ((weight / margin) ^ t *
              Exact.deviation (matrix.rows * matrix.blockSize) x reference) :=
            mul_le_mul_of_nonneg_left ih (by positivity)
        _ = (weight / margin) ^ (t + 1) *
              Exact.deviation (matrix.rows * matrix.blockSize) x reference := by ring

end Matrix

namespace Model

theorem grid_damped (nx ny blockSize : Nat) :
    (gridMatrix nx ny blockSize : Matrix ℚ).Damped (9 / 2) 4 where
  outweighs _ inside := grid_block_outweighs inside
  rest _ inside := grid_row_sum_le nx ny blockSize inside

theorem grid_factorizes (nx ny : Nat) {blockSize : Nat} (positive : 0 < blockSize)
    (small : blockSize ≤ maxBlockSize) :
    ∃ inverse, InverseDiagonal.factorize (gridMatrix nx ny blockSize : Matrix ℚ).diagonal
      blockSize = .ok inverse :=
  InverseDiagonal.factorize_succeeds (size_grid_diagonal nx ny blockSize) positive small
    fun _ inside => (grid_block_outweighs inside).dominant (by norm_num)

/-- In exact arithmetic, for every grid and every block size a solver can take: the diffusion
problem is assembled, its diagonal has an inverse and the solver is set up. For the right-hand
side of any reference, every iterate `t` of a solve is within `(8 / 9) ^ t` of the start's
distance to the reference, and its policy decides only after which iterate it ends. -/
theorem diffusion_converges [SquareRoot ℚ] {nx ny blockSize : Nat} (wide : 0 < nx) (high : 0 < ny)
    (positive : 0 < blockSize) (small : blockSize ≤ maxBlockSize) (name : String)
    (config : Config ℚ) (device : Device ℚ) :
    ∃ matrix inverse solver made, diffusion nx ny blockSize = .ok matrix ∧
      InverseDiagonal.factorize matrix.diagonal matrix.blockSize = .ok inverse ∧
      (Solver.setup name matrix config : DeviceM ℚ (Solver ℚ)) device = (.ok solver, made) ∧
      solver.owned = nx * ny * blockSize ∧ solver.MadeFor matrix inverse made ∧
      ∀ reference : Array ℚ, reference.size = nx * ny * blockSize →
        ∃ rhs, matrix.product reference = .ok rhs ∧
        ∀ (ready : Device ℚ) (request : Request ℚ), solver.MadeFor matrix inverse ready →
          solver.Lent request ready →
          (ready.contents request.rhs).extract 0 solver.owned = rhs →
          ∃ (values : Nat → Array ℚ) (squares : Nat → ℚ),
            values 0 = (ready.contents request.iterate).extract 0 solver.owned ∧
            (∀ t, matrix.Relaxes (ready.contents request.rhs) (values t) (values (t + 1))
              (squares (t + 1))) ∧
            (∀ t, Exact.deviation solver.owned (values t) reference ≤
              (8 / 9) ^ t * Exact.deviation solver.owned (values 0) reference) ∧
            ∀ (μ : Type) (policy : Policy ℚ μ) (statistics : Statistics) (memory : μ),
              ∃ last finished, solver.solve matrix request policy ⟨ready, statistics, memory⟩ =
                .done finished ∧
                Solver.EndsWith solver.owned request values squares last finished := by
  have assembled := grid_assembled (α := ℚ) nx ny positive
  have sound := Matrix.sound_of_assemble assembled
  obtain ⟨inverse, factored⟩ := grid_factorizes nx ny positive small
  obtain ⟨sameSize, count, length, _⟩ := Kernel.inverts_of_factorized sound.diagonal (.inl factored)
  have shaped : inverse.Shaped (gridMatrix nx ny blockSize) := ⟨sameSize, count, length⟩
  obtain ⟨solver, made, ran, fits, _, _, alone, _⟩ :=
    Solver.setup_run name config sound small shaped device
  rw [← Process.setup_factorized name config sound small factored] at ran
  have owned : solver.owned = nx * ny * blockSize := by
    rw [Solver.owned, fits.rows, fits.kernel, Kernel.block_size_of_inverse, sameSize]
    rfl
  refine ⟨gridMatrix nx ny blockSize, inverse, solver, made, diffusion_ok wide high positive,
    factored, ran, owned, fits, fun reference length => ?_⟩
  obtain ⟨rhs, product, rhsSize, rows⟩ := Matrix.product_eq sound length
  refine ⟨rhs, product, fun ready request fits' lent given => ?_⟩
  obtain ⟨inverted, size, ends⟩ := Solver.factored_solve assembled small (.inl factored) alone
    fits' lent
  -- the right-hand side is the product of the reference, so that its rows hold for it
  have solves : (gridMatrix nx ny blockSize).Solves (solver.reads request ready).rhs reference := by
    intro row j inside bound
    have listed : row * blockSize + j < solver.owned := by
      have fits := Kernel.row_end_le blockSize (show row < nx * ny from inside)
      have within : j < blockSize := bound
      omega
    have long := lent.rhsLong
    rw [← rows row j inside bound, ← given, Array.getD_eq_getD_getElem?, Array.getElem?_extract,
      if_pos (by exact lt_of_lt_of_le listed (by omega)), Nat.zero_add,
      ← Array.getD_eq_getD_getElem?]
    rfl
  refine ⟨Solver.iterates _ solver.kernel (solver.reads request ready)
      ((ready.contents request.iterate).extract 0 solver.owned),
    Solver.squaresFrom _ solver.kernel (solver.reads request ready)
      ((ready.contents request.iterate).extract 0 solver.owned), rfl,
    fun t => Matrix.next_relaxes inverted (Solver.size_iterates inverted size t),
    fun t => ?_, ends⟩
  have closer := Matrix.iterates_deviation_le inverted size solves (grid_damped nx ny blockSize)
    (by norm_num) (by norm_num) t
  have ratio : (4 : ℚ) / (9 / 2) = 8 / 9 := by norm_num
  have whole : (gridMatrix nx ny blockSize : Matrix ℚ).rows *
      (gridMatrix nx ny blockSize : Matrix ℚ).blockSize = solver.owned := owned.symm
  rw [ratio, whole] at closer
  exact closer

/-- Two cells side by side. -/
theorem pair_of_cells_converges :
    ∃ (matrix : Matrix ℚ) (rhs : Array ℚ) (values : Nat → Array ℚ) (squares : Nat → ℚ),
      diffusion 2 1 1 = .ok matrix ∧ matrix.product #[1, 2] = .ok rhs ∧ values 0 = #[0, 0] ∧
      (∀ t, matrix.Relaxes rhs (values t) (values (t + 1)) (squares (t + 1))) ∧
      ∀ t, Exact.deviation 2 (values t) #[1, 2] ≤ (8 / 9) ^ t * 2 := by
  have : SquareRoot ℚ := ⟨id⟩
  obtain ⟨matrix, inverse, solver, made, built, _, _, owned, fits, converges⟩ :=
    @diffusion_converges _ 2 1 1 (by decide) (by decide) (by decide) (by decide) "pair" .standard
      (.create .standard)
  obtain ⟨rhs, product, runs⟩ := converges #[1, 2] rfl
  have grid : matrix = gridMatrix 2 1 1 := by
    rw [diffusion_ok (by decide) (by decide) (by decide)] at built
    exact (Except.ok.inj built).symm
  have sound : matrix.Sound := by
    rw [grid]
    exact grid_sound 2 1 (by decide)
  have rhsSize : rhs.size = solver.owned := by
    obtain ⟨full, same, size, _⟩ := Matrix.product_eq sound (x := #[1, 2]) (by rw [grid]; rfl)
    rw [Except.ok.inj (product.symm.trans same), size, owned, grid]
    rfl
  obtain ⟨request, ready, fits', lent, rhsHolds, startHolds, _, _⟩ :=
    fits.upload (by omega) rhs #[0, 0] (le_of_eq rhsSize.symm) (by simp [owned]) 1
  obtain ⟨values, squares, start, steps, closer, _⟩ := runs ready request fits' lent (by
    rw [rhsHolds, ← rhsSize, Array.extract_size])
  rw [startHolds, owned] at start
  rw [rhsHolds] at steps
  have distance : Exact.deviation 2 #[0, 0] #[1, 2] = 2 := by
    decide +kernel
  refine ⟨matrix, rhs, values, squares, built, product, start, steps, fun t => ?_⟩
  have bound := closer t
  rwa [owned, start, show (#[0, 0] : Array ℚ).extract 0 (2 * 1 * 1) = #[0, 0] from rfl, distance]
    at bound

end Model
end Relaxation

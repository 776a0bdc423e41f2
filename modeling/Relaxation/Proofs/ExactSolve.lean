import Relaxation.Proofs.Residual

/-!
A whole solve in exact arithmetic: every iterate solves the rows of the system for the
one before it, and every residual that the solve reports is the true residual of the
iterate it started the iteration from.
-/

namespace Relaxation.Solver

variable {μ : Type} {matrix : Matrix ℚ} {inverse : InverseDiagonal ℚ} {solver : Solver ℚ}
  {request : Request ℚ} {device : Device ℚ}

def reads (solver : Solver ℚ) (request : Request ℚ) (device : Device ℚ) : Sources ℚ :=
  ⟨device.contents solver.diagonal, device.contents solver.inverse, device.contents request.rhs⟩

theorem inverted_of_made (made : MadeFor solver matrix inverse device) (sound : matrix.Sound)
    (small : matrix.blockSize ≤ maxBlockSize) (square : matrix.columns = matrix.rows)
    (shaped : inverse.Shaped matrix)
    (inverts : (Kernel.ofInverse inverse).Inverts matrix.rows matrix.diagonal inverse.values)
    (lent : Lent solver request device) :
    matrix.Inverted solver.kernel (reads solver request device) := by
  have installed := made.installed sound small shaped
  have rows := installed.rows
  have covered : solver.kernel.Covered matrix.rows (reads solver request device) := by
    rw [rows]
    exact ⟨installed.small, installed.diagonalLong, installed.inverseLong, lent.rhsLong⟩
  by_cases none : matrix.rows = 0
  · -- without rows the buffers hold something else, and nothing is read of them
    refine ⟨sound, square, installed.blockSize.symm, covered, ?_, fun row j k inside => ?_⟩
    · unfold Kernel.Inverts
      split <;> exact fun row inside => absurd inside (by omega)
    · exact absurd inside (by omega)
  · obtain ⟨diagonal, factors⟩ := made.holds sound shaped (Nat.pos_of_ne_zero none)
    refine ⟨sound, square, installed.blockSize.symm, covered, ?_, fun row j k _ _ _ => ?_⟩
    · simpa only [reads, diagonal, factors, made.kernel] using inverts
    · simp only [reads, diagonal]

def iterates (matrix : Matrix ℚ) (kernel : Kernel) (sources : Sources ℚ) (start : Array ℚ) :
    Nat → Array ℚ
  | 0 => start
  | t + 1 => next matrix kernel sources (iterates matrix kernel sources start t)

def rowSquares (matrix : Matrix ℚ) (kernel : Kernel) (sources : Sources ℚ) (x : Array ℚ) : ℚ :=
  ∑ row ∈ Finset.range matrix.rows,
    (kernel.rowUpdate sources (matrix.couplings x).toArray x row).square

def squaresFrom (matrix : Matrix ℚ) (kernel : Kernel) (sources : Sources ℚ) (start : Array ℚ)
    (t : Nat) : ℚ :=
  rowSquares matrix kernel sources (iterates matrix kernel sources start (t - 1))

theorem square_rows {sweep : Sweep} {sources : Sources ℚ} {x : Array ℚ}
    (square : matrix.columns = matrix.rows) (size : x.size = matrix.rows * matrix.blockSize)
    (carries : Carries matrix sweep sources x device) :
    Solver.square matrix sweep device = rowSquares matrix sweep.kernel sources x := by
  have ready := carries.fitting.ready
  have cover : sweep.geometry = .cover matrix.rows sweep.geometry.threadsPerBlock := by
    rw [ready.geometry, carries.fitting.rows]
    rfl
  rw [square_eq carries.fitting (by rw [square, size]) (by rw [square]; exact carries.previous),
    cover, Launch.levels_total ready.width, carries.sources]
  rfl

theorem size_iterates {kernel : Kernel} {sources : Sources ℚ} {start : Array ℚ}
    (inverted : matrix.Inverted kernel sources)
    (size : start.size = matrix.rows * matrix.blockSize) (t : Nat) :
    (iterates matrix kernel sources start t).size = matrix.rows * matrix.blockSize := by
  induction t with
  | zero => exact size
  | succ t ih => exact size_next inverted.blockSize inverted.covered (le_of_eq ih.symm)

variable [SquareRoot ℚ]

structure EndsWith (owned : Nat) (request : Request ℚ) (values : Nat → Array ℚ)
    (squares : Nat → ℚ) (last : Nat)
    (finished : Except (Failure ℚ) (Outcome ℚ) × SolveScope ℚ μ) : Prop where
  iterate : (finished.2.device.contents request.iterate).extract 0 owned = values last
  result :
    (last = 0 ∧ request.norm ≤ zeroNorm ∧ finished.1 = .ok nothingToSolve) ∨
    (last = iterationLimit ∧ finished.1 = .error (.faulted .overflow)) ∨
    (0 < last ∧ ∃ outcome, finished.1 = .ok outcome ∧ outcome.iterations = last ∧
      outcome.history = residuals squares last ∧
      outcome.residual = SquareRoot.root (squares last))

theorem solve_direct (policy : Policy ℚ μ) (scope : SolveScope ℚ μ)
    (installed : Installed solver matrix scope.device)
    (inverted : matrix.Inverted solver.kernel (reads solver request scope.device))
    (whole : matrix.halo = none) (alone : solver.communicator = .alone)
    (direct : solver.config.launch = .direct) (lent : Lent solver request scope.device) :
    ∃ last finished, solver.solve matrix request policy scope = .done finished ∧
      EndsWith solver.owned request
        (iterates matrix solver.kernel (reads solver request scope.device)
          ((scope.device.contents request.iterate).extract 0 solver.owned))
        (squaresFrom matrix solver.kernel (reads solver request scope.device)
          ((scope.device.contents request.iterate).extract 0 solver.owned))
        last finished := by
  generalize copied : (scope.device.contents request.iterate).extract 0 solver.owned = start
  have owned : solver.owned = matrix.rows * matrix.blockSize := by
    rw [Solver.owned, installed.rows, installed.blockSize]
  have size : start.size = matrix.rows * matrix.blockSize := by
    have long := lent.iterateLong
    rw [← copied, Array.size_extract]
    omega
  obtain ⟨now, first, alike, zero, checked⟩ := solve_alone policy scope installed lent alone
  cases now with
  | true =>
      obtain ⟨after, alike', ended⟩ := conclude_at_once solver matrix request policy first
      refine ⟨0, _, checked.trans ended, ?_, .inl ⟨rfl, ?_, rfl⟩⟩
      · rw [alike'.contents, alike.contents, copied]
        rfl
      · exact of_decide_eq_true (zero rfl)
  | false =>
      obtain ⟨sweep, origin, after, started, begun⟩ := relax_run policy first
        (installed.of_extends (.of_alike alike)) (lent.of_extends (.of_alike alike))
      -- the checks and the copy have left what the launches will read as it was
      have carries := begun.carries (x := start) fun index inside => by
        have long := lent.iterateLong
        rw [alike.contents, ← copied, Array.getElem?_extract, if_pos (by omega), Nat.zero_add]
      simp only [alike.contents] at carries
      change Carries matrix sweep (reads solver request scope.device) start after at carries
      generalize reads solver request scope.device = sources at inverted carries ⊢
      have squared : ∀ t device,
          Carries matrix sweep sources (iterates matrix solver.kernel sources start t) device →
          Solver.square matrix sweep device =
            squaresFrom matrix solver.kernel sources start (t + 1) := by
        intro t device carried
        rw [square_rows inverted.square (size_iterates inverted size t) carried, begun.kernel]
        rfl
      obtain ⟨last, finished, ran, ended⟩ := iterate_alone alone whole inverted.square policy origin
        iterationLimit (.start solver.name solver.config.verbosity solver.config.maxIterations
          solver.config.precision request.norm) { first with device := after }
        (size_iterates inverted size) (fun t => by rw [begun.kernel]; rfl) squared carries
      refine ⟨last, finished, ?_, ?_, ?_⟩
      · rw [checked]
        unfold conclude
        rw [if_neg Bool.false_ne_true, started, direct]
        exact ran
      · rw [owned, ← begun.handle]
        exact (ended.carries.read (size_iterates inverted size last)).2
      · rcases ended.result with ⟨failed, counted⟩ | done
        · exact .inr (.inl ⟨counted.trans (Nat.zero_add _), failed⟩)
        · obtain ⟨outcome, same, positive, rest⟩ := done
          exact .inr (.inr ⟨positive, outcome, same, rest⟩)

theorem EndsWith.of_seen {owned : Nat} {values : Nat → Array ℚ} {squares : Nat → ℚ} {last : Nat}
    {finished finished' : Except (Failure ℚ) (Outcome ℚ) × SolveScope ℚ μ}
    (ends : EndsWith owned request values squares last finished)
    (same : seen finished' = seen finished) :
    EndsWith owned request values squares last finished' := by
  obtain ⟨result, buffers, _⟩ := Prod.ext_iff.mp same |>.imp id Prod.ext_iff.mp
  refine ⟨?_, ?_⟩
  · rw [← ends.iterate]
    simp only [Device.contents, show finished'.2.device.buffers = finished.2.device.buffers from
      buffers]
  · rw [show finished'.1 = finished.1 from result]
    exact ends.result

/-- What a solver can rely on that was made for an assembled matrix without ghost columns and
for a factored inverse of its diagonal, and how its solves end. -/
theorem factored_solve {rows n : Nat} {diagonal : Array ℚ} {entries : List (Entry ℚ)}
    (assembled : Matrix.assemble rows rows n diagonal entries = .ok matrix)
    (small : n ≤ maxBlockSize)
    (factored : InverseDiagonal.factorize matrix.diagonal matrix.blockSize = .ok inverse ∨
      InverseDiagonal.ofBlocks matrix.diagonal matrix.blockSize = .ok inverse)
    (alone : solver.communicator = .alone) (made : MadeFor solver matrix inverse device)
    (lent : Lent solver request device) :
    matrix.Inverted solver.kernel (reads solver request device) ∧
      ((device.contents request.iterate).extract 0 solver.owned).size =
        matrix.rows * matrix.blockSize ∧
      ∀ (μ : Type) (policy : Policy ℚ μ) (statistics : Statistics) (memory : μ),
        ∃ last finished, solver.solve matrix request policy ⟨device, statistics, memory⟩ =
          .done finished ∧ EndsWith solver.owned request
            (iterates matrix solver.kernel (reads solver request device)
              ((device.contents request.iterate).extract 0 solver.owned))
            (squaresFrom matrix solver.kernel (reads solver request device)
              ((device.contents request.iterate).extract 0 solver.owned)) last finished := by
  have sound := Matrix.sound_of_assemble assembled
  obtain ⟨_, _, _, _, rfl⟩ := Matrix.assemble_ok assembled
  obtain ⟨blockSize, count, length, inverts⟩ :=
    Kernel.inverts_of_factorized sound.diagonal factored
  have shaped : inverse.Shaped _ := ⟨blockSize, count, length⟩
  have inverted := inverted_of_made made sound small rfl shaped inverts lent
  have installed := made.installed sound small shaped
  refine ⟨inverted, ?_, fun μ policy statistics memory => ?_⟩
  · have long := lent.iterateLong
    rw [Solver.owned, ← installed.rows, ← installed.blockSize] at long ⊢
    rw [Array.size_extract]
    omega
  · -- the solver may replay a graph, so the solve is first run with direct launches
    obtain ⟨last, finished, direct, ends⟩ := solve_direct policy ⟨device, statistics, memory⟩
      (installed.with_launch .direct) inverted rfl alone rfl (lent.with_launch .direct)
    obtain ⟨finished', ran, same⟩ := solve_done_of_direct direct
    exact ⟨last, finished', ran, ends.of_seen same⟩

/-- In exact arithmetic, for every matrix without ghost columns and every inverse of its
diagonal: a solve goes through iterates with `D x' + E x = rhs`, the square it reads back
in each iteration is that of the residual `rhs - A x` of the iterate before, and its policy
decides only after how many iterations it ends. -/
theorem increment_is_residual {rows n : Nat} {diagonal : Array ℚ}
    {entries : List (Entry ℚ)}
    (assembled : Matrix.assemble rows rows n diagonal entries = .ok matrix)
    (small : n ≤ maxBlockSize)
    (factored : InverseDiagonal.factorize matrix.diagonal matrix.blockSize = .ok inverse ∨
      InverseDiagonal.ofBlocks matrix.diagonal matrix.blockSize = .ok inverse)
    (name : String) (config : Config ℚ) (device : Device ℚ) :
    ∃ solver made, (setupWithInverse name matrix config inverse : DeviceM ℚ (Solver ℚ)) device =
        (.ok solver, made) ∧ MadeFor solver matrix inverse made ∧
      ∀ (ready : Device ℚ) (request : Request ℚ), MadeFor solver matrix inverse ready →
        Lent solver request ready →
        ∃ (values : Nat → Array ℚ) (squares : Nat → ℚ),
          values 0 = (ready.contents request.iterate).extract 0 solver.owned ∧
          (∀ t, matrix.Relaxes (ready.contents request.rhs) (values t) (values (t + 1))
            (squares (t + 1))) ∧
          ∀ (μ : Type) (policy : Policy ℚ μ) (statistics : Statistics) (memory : μ),
            ∃ last finished, solver.solve matrix request policy ⟨ready, statistics, memory⟩ =
              .done finished ∧ EndsWith solver.owned request values squares last finished := by
  have sound := Matrix.sound_of_assemble assembled
  obtain ⟨_, _, _, _, shape⟩ := Matrix.assemble_ok assembled
  have square : matrix.columns = matrix.rows := by
    rw [shape]
    rfl
  have whole : matrix.halo = none := by
    rw [shape]
    rfl
  have small' : matrix.blockSize ≤ maxBlockSize := by
    rw [shape]
    exact small
  obtain ⟨blockSize, count, length, inverts⟩ :=
    Kernel.inverts_of_factorized sound.diagonal factored
  have shaped : inverse.Shaped matrix := ⟨blockSize, count, length⟩
  obtain ⟨solver, made, ran, fits, _, configured, alone, _⟩ :=
    setup_run name config sound small' shaped device
  refine ⟨solver, made, ran, fits, fun ready request fits' lent => ?_⟩
  have inverted := inverted_of_made fits' sound small' square shaped inverts lent
  have installed := fits'.installed sound small' shaped
  have size : ((ready.contents request.iterate).extract 0 solver.owned).size =
      matrix.rows * matrix.blockSize := by
    have long := lent.iterateLong
    rw [Solver.owned, ← installed.rows, ← installed.blockSize] at long ⊢
    rw [Array.size_extract]
    omega
  refine ⟨iterates matrix solver.kernel (reads solver request ready)
      ((ready.contents request.iterate).extract 0 solver.owned),
    squaresFrom matrix solver.kernel (reads solver request ready)
      ((ready.contents request.iterate).extract 0 solver.owned), rfl,
    fun t => Matrix.next_relaxes inverted (size_iterates inverted size t),
    fun μ policy statistics memory => ?_⟩
  -- the solver may replay a graph, so the solve is first run with direct launches
  obtain ⟨last, finished, direct, ends⟩ := solve_direct policy ⟨ready, statistics, memory⟩
    (installed.with_launch .direct) inverted whole alone rfl (lent.with_launch .direct)
  obtain ⟨finished', ran', same⟩ := solve_done_of_direct direct
  exact ⟨last, finished', ran', ends.of_seen same⟩

def coupledRows : Matrix ℚ :=
  .ofEntries 2 2 1 #[4, 2] [⟨0, 1, 1⟩, ⟨1, 0, -1⟩]

omit [SquareRoot ℚ] in
theorem coupled_rows_relax :
    Matrix.assemble 2 2 1 #[4, 2] [⟨0, 1, 1⟩, ⟨1, 0, -1⟩] = .ok coupledRows ∧
      InverseDiagonal.factorize coupledRows.diagonal coupledRows.blockSize =
        .ok (.reciprocals #[1 / 4, 1 / 2]) ∧
      ∃ (values : Nat → Array ℚ) (squares : Nat → ℚ), values 0 = #[1, 3] ∧
        ∀ t, coupledRows.Relaxes #[8, 6] (values t) (values (t + 1)) (squares (t + 1)) := by
  have assembled : Matrix.assemble 2 2 1 #[4, 2] [⟨0, 1, 1⟩, ⟨1, 0, -1⟩] = .ok coupledRows := rfl
  have factored : InverseDiagonal.factorize coupledRows.diagonal coupledRows.blockSize =
      .ok (.reciprocals #[1 / 4, 1 / 2]) := by
    cbv
  have : SquareRoot ℚ := ⟨id⟩
  obtain ⟨solver, made, _, fits, relaxes⟩ := increment_is_residual assembled (by decide)
    (.inl factored) "rows" .standard (.create .standard)
  obtain ⟨first, _, grown, rhs⟩ := Device.upload_run #[8, 6] made
  obtain ⟨ready, _, grown', start⟩ := Device.upload_run #[1, 3] first
  have rhs' := rhs.of_extends grown'
  have fits' := (fits.of_extends grown).of_extends grown'
  have owned : solver.owned = 2 := by
    rw [Solver.owned, fits.rows, fits.kernel]
    rfl
  have rhsHolds : ready.contents made.nextHandle = #[8, 6] := rhs'.contents (by simp)
  have startHolds : ready.contents first.nextHandle = #[1, 3] := start.contents (by simp)
  have lent : Lent solver ⟨made.nextHandle, first.nextHandle, 10, none⟩ ready := by
    refine ⟨rhs'.held, start.held, ?_, ?_, ?_, by simp⟩
    · rw [owned, rhsHolds]
      exact Nat.le_refl 2
    · rw [owned, startHolds]
      exact Nat.le_refl 2
    · have diagonal := Device.ne_next_handle (grown.holds fits.diagonal.held)
      have inverse := Device.ne_next_handle (grown.holds fits.inverse.held)
      have other := Device.ne_next_handle rhs.held
      simp [Ne.symm diagonal, Ne.symm inverse, Ne.symm other]
  obtain ⟨values, squares, started, steps, _⟩ := relaxes ready _ fits' lent
  rw [owned] at started
  refine ⟨assembled, factored, values, squares, ?_, ?_⟩
  · rw [started, startHolds]
    rfl
  · rw [← rhsHolds]
    exact steps

end Relaxation.Solver

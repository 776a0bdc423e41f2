import Relaxation.Proofs.HaloLoop

/-!
A whole process: it sets up a solver on a device of its own, uploads its vectors, solves
and reads its values back. Up to its first iteration it meets nobody.
-/

namespace Relaxation

variable {α μ : Type} [Arithmetic α] [SquareRoot α]

structure Process (α μ : Type) where
  name : String
  config : Config α
  width : BlockWidth
  norm : α
  policy : Policy α μ
  memory : μ

namespace Process

/-- Setup, upload, solve and download, as one program. Only its answer is seen. -/
def program (process : Process α μ) (communicator : Communicator) (matrix : Matrix α)
    (rhs start : Array α) : Collective α (Except (Failure α) (Outcome α × Array α)) :=
  let run : SolveM α μ (Outcome α × Array α) := do
    let solver ← SolveM.call (Solver.setup process.name matrix process.config)
    let solver := solver.withCommunicator communicator
    let rhs ← SolveM.call (Device.upload rhs)
    let iterate ← SolveM.call (Device.upload start)
    let outcome ← solver.solve matrix ⟨rhs, iterate, process.norm, none⟩ process.policy
    let values ← SolveM.call (Device.download iterate solver.owned)
    pure (outcome, values)
  Prod.fst <$> run ⟨.create process.width, {}, process.memory⟩

def progress (process : Process α μ) : Progress α :=
  .start process.name process.config.verbosity process.config.maxIterations
    process.config.precision process.norm

def ending (iterate : Buffer) (length : Nat)
    (finished : Except (Failure α) (Outcome α) × SolveScope α μ) :
    Collective α (Except (Failure α) (Outcome α × Array α)) :=
  match finished.1 with
  | .ok outcome => Prod.fst <$> (do
      let values ← SolveM.call (Device.download iterate length)
      pure (outcome, values) : SolveM α μ (Outcome α × Array α)) finished.2
  | .error failure => .done (.error failure)

omit [Arithmetic α] [SquareRoot α] in
theorem ending_ok {iterate : Buffer} {length : Nat} {outcome : Outcome α}
    {scope : SolveScope α μ} (long : length ≤ (scope.device.contents iterate).size) :
    ending iterate length (.ok outcome, scope) =
      .done (.ok (outcome, (scope.device.contents iterate).extract 0 length)) := by
  obtain ⟨after, _, downloaded⟩ := Device.download_run long
  unfold ending
  dsimp only
  rw [meet_of_done (SolveM.call_run downloaded)]
  rfl

omit [Arithmetic α] [SquareRoot α] in
theorem ending_alike {iterate : Buffer} {length : Nat}
    {first second : Except (Failure α) (Outcome α) × SolveScope α μ}
    (same : SameResult Eq first.1 second.1) (alike : SolveScope.Alike first.2 second.2) :
    ending iterate length first = ending iterate length second := by
  obtain ⟨result, left⟩ := first
  obtain ⟨result', right⟩ := second
  cases same with
  | error failure => rfl
  | @ok outcome _ equal =>
      subst equal
      have agreed : Agree SolveScope.Alike Eq
          (do let values ← SolveM.call (Device.download iterate length); pure (outcome, values) :
            SolveM α μ (Outcome α × Array α))
          (do let values ← SolveM.call (Device.download iterate length); pure (outcome, values)) := by
        apply (SolveM.agree_call (Device.agree_download iterate length)).ofBind
        rintro values _ rfl
        exact .ofPure rfl
      apply Collective.bind_eq_of_related (agreed left right alike)
      rintro ⟨read, _⟩ ⟨read', _⟩ ⟨same, _⟩
      cases same with
      | ok equal =>
          subst equal
          rfl
      | error failure => rfl

theorem ending_direct (solver : Solver α) (matrix : Matrix α) (request : Request α)
    (policy : Policy α μ) (iterate : Buffer) (length : Nat) (scope : SolveScope α μ) :
    (solver.solve matrix request policy scope).bind (ending iterate length) =
      ((solver.withLaunch .direct).solve matrix request policy scope).bind
        (ending iterate length) := by
  cases mode : solver.config.launch with
  | direct =>
      have same : solver.withLaunch .direct = solver := by
        rw [← mode]
        rfl
      rw [same]
  | graph =>
      have same : solver.withLaunch .graph = solver := by
        rw [← mode]
        rfl
      have agreed := solver.agree_solve matrix request policy scope scope
        ⟨Device.Alike.refl _, rfl, rfl⟩
      rw [same] at agreed
      exact (Collective.bind_eq_of_related agreed fun _ _ both =>
        ending_alike both.1 both.2).symm

section Begin

variable {process : Process α μ} {communicator : Communicator} {matrix : Matrix α}
  {inverse : InverseDiagonal α} {rhs start : Array α}

omit [SquareRoot α] in
theorem setup_factorized (name : String) (config : Config α) (sound : matrix.Sound)
    (small : matrix.blockSize ≤ maxBlockSize)
    (factored : InverseDiagonal.factorize matrix.diagonal matrix.blockSize = .ok inverse)
    (device : Device α) :
    (Solver.setup name matrix config : DeviceM α (Solver α)) device =
      Solver.setupWithInverse name matrix config inverse device := by
  unfold Solver.setup
  rw [Solver.check_block_size_ok sound.positive small, factored]
  rfl

structure Prepared (process : Process α μ) (communicator : Communicator) (matrix : Matrix α)
    (inverse : InverseDiagonal α) (rhs start : Array α) (solver : Solver α) (request : Request α)
    (device : Device α) : Prop where
  made : Solver.MadeFor solver matrix inverse device
  lent : Solver.Lent solver request device
  rhs : device.contents request.rhs = rhs
  start : device.contents request.iterate = start
  norm : request.norm = process.norm
  name : solver.name = process.name
  config : solver.config = process.config
  communicator : solver.communicator = communicator
  width : device.width = process.width

theorem program_solves (process : Process α μ) (communicator : Communicator) (sound : matrix.Sound)
    (small : matrix.blockSize ≤ maxBlockSize)
    (factored : InverseDiagonal.factorize matrix.diagonal matrix.blockSize = .ok inverse)
    (shaped : inverse.Shaped matrix) (some : 0 < matrix.rows)
    (rhsSize : rhs.size = matrix.rows * matrix.blockSize)
    (startSize : start.size = matrix.rows * matrix.blockSize) :
    ∃ (solver : Solver α) (request : Request α) (device : Device α),
      process.program communicator matrix rhs start =
        (solver.solve matrix request process.policy ⟨device, {}, process.memory⟩).bind
          (ending request.iterate (matrix.rows * matrix.blockSize)) ∧
      Prepared process communicator matrix inverse rhs start solver request device := by
  obtain ⟨solver, made, ran, fits, extended, configured, _, named⟩ :=
    Solver.setup_run process.name process.config sound small shaped (.create process.width)
  rw [← setup_factorized process.name process.config sound small factored] at ran
  obtain ⟨first, uploaded, grown, rhsStored⟩ := Device.upload_run rhs made
  obtain ⟨second, uploaded', grown', startStored⟩ := Device.upload_run start first
  have rhsStored' := rhsStored.of_extends grown'
  have fits' := (fits.of_extends grown).of_extends grown'
  have values : 0 < matrix.rows * matrix.blockSize := Nat.mul_pos some sound.positive
  have owned : (solver.withCommunicator communicator).owned = matrix.rows * matrix.blockSize := by
    change solver.rows * solver.kernel.blockSize = _
    rw [fits.rows, fits.kernel, Kernel.block_size_of_inverse, shaped.blockSize]
  have rhsHolds : second.contents made.nextHandle = rhs :=
    rhsStored'.contents (Array.size_pos_iff.mp (rhsSize ▸ values))
  have startHolds : second.contents first.nextHandle = start :=
    startStored.contents (Array.size_pos_iff.mp (startSize ▸ values))
  refine ⟨solver.withCommunicator communicator, ⟨made.nextHandle, first.nextHandle, process.norm, none⟩,
    second, ?_, ⟨fits'.kernel, fits'.rows, fits'.diagonal, fits'.inverse⟩,
    ⟨rhsStored'.held, startStored.held, ?_, ?_, ?_, fun _ given => nomatch given⟩, rhsHolds,
    startHolds, rfl, named, configured, rfl,
    grown'.width.trans (grown.width.trans extended.width)⟩
  · unfold program
    dsimp only
    rw [meet_of_done (SolveM.call_run ran), meet_of_done (SolveM.call_run uploaded),
      meet_of_done (SolveM.call_run uploaded'), meet_bind, owned]
    refine (Collective.bind_assoc _ _ _).trans ?_
    congr 1
    funext answer
    obtain ⟨result | failure, scope⟩ := answer <;> rfl
  · rw [owned, rhsHolds, rhsSize]
  · rw [owned, startHolds, startSize]
  · have diagonal := Device.ne_next_handle (grown.holds fits.diagonal.held)
    have inverse := Device.ne_next_handle (grown.holds fits.inverse.held)
    have other := Device.ne_next_handle rhsStored.held
    simp [Solver.withCommunicator, Ne.symm diagonal, Ne.symm inverse, Ne.symm other]

theorem program_eq (process : Process α μ) (communicator : Communicator) (sound : matrix.Sound)
    (small : matrix.blockSize ≤ maxBlockSize)
    (factored : InverseDiagonal.factorize matrix.diagonal matrix.blockSize = .ok inverse)
    (shaped : inverse.Shaped matrix) (some : 0 < matrix.rows)
    (rhsSize : rhs.size = matrix.rows * matrix.blockSize)
    (startSize : start.size = matrix.rows * matrix.blockSize)
    (positive : Arithmetic.le process.norm Solver.zeroNorm = false) :
    ∃ (solver : Solver α) (sweep : Sweep) (origin : ScratchOrigin) (scope : SolveScope α μ),
      process.program communicator matrix rhs start =
        (solver.iterate matrix process.policy sweep origin Solver.iterationLimit .direct
          process.progress #[] scope).bind
          (ending sweep.iterate (matrix.rows * matrix.blockSize)) ∧
      solver.communicator = communicator ∧ sweep.kernel = .ofInverse inverse ∧
      sweep.geometry = .cover matrix.rows process.width.threads ∧ scope.memory = process.memory ∧
      Solver.Carries matrix sweep ⟨matrix.diagonal, inverse.values, rhs⟩ start scope.device := by
  obtain ⟨solver, request, device, unfolded, prepared⟩ :=
    process.program_solves communicator sound small factored shaped some rhsSize startSize
  have made := prepared.made
  -- launched one by one, since the mode cannot be seen
  have installed := (made.installed sound small shaped).with_launch .direct
  have lent := prepared.lent.with_launch .direct
  obtain ⟨checked, alike, solved⟩ := Solver.solve_run process.policy ⟨device, {}, process.memory⟩
    installed lent (by rw [prepared.norm, positive])
  obtain ⟨sweep, origin, after, relaxed, begun⟩ := Solver.relax_run process.policy
    ⟨checked, {}, process.memory⟩ (installed.of_extends (.of_alike alike))
    (lent.of_extends (.of_alike alike))
  refine ⟨solver.withLaunch .direct, sweep, origin, ⟨after, {}, process.memory⟩, ?_,
    prepared.communicator, begun.kernel.trans made.kernel, ?_, rfl, ?_⟩
  · rw [unfolded, ending_direct, solved, relaxed, begun.handle, progress, ← prepared.name,
      ← prepared.config, ← prepared.norm]
    rfl
  · have width : after.width = process.width :=
      begun.width.trans (alike.width.trans prepared.width)
    rw [begun.fitting.ready.geometry, ← begun.fitting.rows, Device.geometry, width]
  · obtain ⟨diagonal, factors⟩ := made.holds sound shaped some
    have carries := begun.carries (x := start) fun index _ => by
      simp only [alike.contents, prepared.start]
    simpa only [Solver.withLaunch, alike.contents, diagonal, factors, prepared.rhs] using carries

end Begin

end Process
end Relaxation

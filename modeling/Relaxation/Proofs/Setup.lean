import Relaxation.Proofs.InverseDiagonal
import Relaxation.Proofs.Start
import Relaxation.Proofs.Solve

/-!
From a matrix and its inverse diagonal to the loop of a solve: neither the setup nor the
checks of a solve refuse a matrix whose parts fit each other.
-/

namespace Relaxation

variable {α μ : Type}

structure InverseDiagonal.Shaped (inverse : InverseDiagonal α) (matrix : Matrix α) : Prop where
  blockSize : inverse.blockSize = matrix.blockSize
  rows : inverse.rows = .ok matrix.rows
  length : (Kernel.ofInverse inverse).inverseLength matrix.rows = inverse.values.size

namespace InverseDiagonal

variable {inverse : InverseDiagonal α}

theorem length_of_rows {rows : Nat}
    (counted : inverse.rows = .ok rows) :
    (Kernel.ofInverse inverse).inverseLength rows ≤ inverse.values.size := by
  cases inverse with
  | reciprocals values =>
      cases counted
      exact Nat.le_refl _
  | factors n values =>
      by_cases uncounted : n = 0 ∨ Word.limit ≤ n * n
      · obtain ⟨_, faulted⟩ := @rows_fault α (.factors n values) uncounted
        rw [faulted] at counted
        cases counted
      rw [not_or, Nat.not_le] at uncounted
      rw [@rows_of_positive α (.factors n values) (Nat.pos_of_ne_zero uncounted.1)
        uncounted.2] at counted
      cases counted
      have covered := Nat.div_mul_le_self values.size (n * n)
      rw [← Nat.mul_assoc] at covered
      by_cases three : n = 3
      · subst three
        exact covered
      · rw [Kernel.of_factors three]
        exact covered

end InverseDiagonal

theorem Kernel.inverse_length_pos {kernel : Kernel} {rows : Nat} (some : 0 < rows)
    (positive : 0 < kernel.blockSize) : 0 < kernel.inverseLength rows := by
  unfold inverseLength
  split
  · exact some
  · exact Nat.mul_pos (Nat.mul_pos some positive) positive

namespace Solver

variable {matrix : Matrix α} {inverse : InverseDiagonal α}

structure MadeFor (solver : Solver α) (matrix : Matrix α) (inverse : InverseDiagonal α)
    (device : Device α) : Prop where
  kernel : solver.kernel = .ofInverse inverse
  rows : solver.rows = matrix.rows
  diagonal : device.Stores solver.diagonal matrix.diagonal
  inverse : device.Stores solver.inverse inverse.values

theorem MadeFor.of_extends {solver : Solver α} {before after : Device α}
    (made : MadeFor solver matrix inverse before) (more : before.Extends after) :
    MadeFor solver matrix inverse after :=
  ⟨made.kernel, made.rows, made.diagonal.of_extends more, made.inverse.of_extends more⟩

/-- An inverse may be longer than the matrix needs. -/
theorem MadeFor.installed_of_length {solver : Solver α} {device : Device α}
    (made : MadeFor solver matrix inverse device) (sound : matrix.Sound)
    (small : matrix.blockSize ≤ maxBlockSize) (same : inverse.blockSize = matrix.blockSize)
    (enough : (Kernel.ofInverse inverse).inverseLength matrix.rows ≤ inverse.values.size) :
    Installed solver matrix device := by
  have size : solver.kernel.blockSize = matrix.blockSize := by
    rw [made.kernel, Kernel.block_size_of_inverse, same]
  refine ⟨sound, made.rows.symm, size.symm, size ▸ small, made.diagonal.held, made.inverse.held,
    ?_, ?_⟩
  · rw [size, made.rows, ← sound.diagonal]
    exact made.diagonal.long
  · rw [made.kernel, made.rows]
    exact enough.trans made.inverse.long

theorem MadeFor.installed {solver : Solver α} {device : Device α}
    (made : MadeFor solver matrix inverse device) (sound : matrix.Sound)
    (small : matrix.blockSize ≤ maxBlockSize) (shaped : inverse.Shaped matrix) :
    Installed solver matrix device :=
  made.installed_of_length sound small shaped.blockSize (le_of_eq shaped.length)

theorem MadeFor.holds {solver : Solver α} {device : Device α}
    (made : MadeFor solver matrix inverse device) (sound : matrix.Sound)
    (shaped : inverse.Shaped matrix) (some : 0 < matrix.rows) :
    device.contents solver.diagonal = matrix.diagonal ∧
      device.contents solver.inverse = inverse.values := by
  have blocks : 0 < matrix.rows * matrix.blockSize * matrix.blockSize :=
    Nat.mul_pos (Nat.mul_pos some sound.positive) sound.positive
  constructor
  · apply made.diagonal.contents
    rw [← Array.size_pos_iff, sound.diagonal]
    exact blocks
  · apply made.inverse.contents
    rw [← Array.size_pos_iff, ← shaped.length]
    apply Kernel.inverse_length_pos some
    rw [Kernel.block_size_of_inverse, shaped.blockSize]
    exact sound.positive

theorem check_block_size_ok {n : Nat} (positive : 0 < n) (small : n ≤ maxBlockSize) :
    (checkBlockSize n : Except (Refusal α) Unit) = .ok () := by
  unfold checkBlockSize
  rw [if_neg (by omega)]

structure Accepts (matrix : Matrix α) (inverse : InverseDiagonal α) : Prop where
  range : 1 ≤ matrix.blockSize ∧ matrix.blockSize ≤ 9
  blockSize : inverse.blockSize = matrix.blockSize
  rows : inverse.rows = .ok matrix.rows
  diagonal : matrix.diagonal.size = matrix.rows * matrix.blockSize * matrix.blockSize
  covers : matrix.rows ≤ matrix.columns

/-- Factors whose blocks hold no value, or more than a word can count, for a matrix whose own
block size is no reason to refuse it. -/
def Uncounted (matrix : Matrix α) (inverse : InverseDiagonal α) : Prop :=
  (1 ≤ matrix.blockSize ∧ matrix.blockSize ≤ 9) ∧
    (inverse.blockSize = 0 ∨ Word.limit ≤ inverse.blockSize * inverse.blockSize)

theorem check_shape_of_range (range : matrix.blockSize = 0 ∨ maxBlockSize < matrix.blockSize) :
    checkShape matrix inverse =
      .error (.refused (.blockSizeRange matrix.blockSize maxBlockSize)) := by
  unfold checkShape checkBlockSize
  rw [if_pos range]
  rfl

theorem check_shape_of_fault (range : ¬(matrix.blockSize = 0 ∨ maxBlockSize < matrix.blockSize))
    {fault : Fault} (faulted : inverse.rows = .error fault) :
    checkShape matrix inverse = .error (.faulted fault) := by
  unfold checkShape checkBlockSize
  rw [if_neg range, faulted]
  rfl

theorem check_shape_counted (range : ¬(matrix.blockSize = 0 ∨ maxBlockSize < matrix.blockSize))
    {rows : Nat} (counted : inverse.rows = .ok rows) :
    checkShape matrix inverse =
      if inverse.blockSize ≠ matrix.blockSize ∨ rows ≠ matrix.rows then
        .error (.refused (.inverseShape rows inverse.blockSize matrix.rows matrix.blockSize))
      else if matrix.diagonal.size ≠ matrix.rows * matrix.blockSize * matrix.blockSize then
        .error (.refused (.diagonalShape matrix.diagonal.size matrix.rows matrix.blockSize))
      else if matrix.columns < matrix.rows then .error (.refused .columnShape)
      else .ok () := by
  unfold checkShape checkBlockSize
  rw [if_neg range, counted]
  simp only [Failure.ofRefusal, Failure.ofFault, pure_bind]
  split_ifs <;> rfl

theorem in_range_iff : (1 ≤ matrix.blockSize ∧ matrix.blockSize ≤ 9) ↔
    ¬(matrix.blockSize = 0 ∨ maxBlockSize < matrix.blockSize) := by
  unfold maxBlockSize
  omega

theorem check_shape_cases :
    (checkShape matrix inverse = .ok () ∧ Accepts matrix inverse ∧ ¬Uncounted matrix inverse) ∨
      ((∃ fault, checkShape matrix inverse = .error (.faulted fault)) ∧
        ¬Accepts matrix inverse ∧ Uncounted matrix inverse) ∨
      ∃ refusal, checkShape matrix inverse = .error (.refused refusal) ∧
        refusal.kind = .precondition ∧ ¬Accepts matrix inverse ∧ ¬Uncounted matrix inverse := by
  by_cases range : matrix.blockSize = 0 ∨ maxBlockSize < matrix.blockSize
  · exact .inr (.inr ⟨_, check_shape_of_range range, rfl,
      fun fits => in_range_iff.mp fits.range range,
      fun uncounted => in_range_iff.mp uncounted.1 range⟩)
  by_cases uncounted : inverse.blockSize = 0 ∨
      Word.limit ≤ inverse.blockSize * inverse.blockSize
  · obtain ⟨fault, faulted⟩ := InverseDiagonal.rows_fault uncounted
    refine .inr (.inl ⟨⟨fault, check_shape_of_fault range faulted⟩, fun fits => ?_,
      in_range_iff.mpr range, uncounted⟩)
    rw [fits.rows] at faulted
    cases faulted
  have nameable : ¬Uncounted matrix inverse := fun beyond => uncounted beyond.2
  rw [not_or, Nat.not_le] at uncounted
  have counted :=
    InverseDiagonal.rows_of_positive (Nat.pos_of_ne_zero uncounted.1) uncounted.2
  have checked := check_shape_counted range counted
  split_ifs at checked with shape filled narrow
  · refine .inr (.inr ⟨_, checked, rfl, fun fits => ?_, nameable⟩)
    have same := Except.ok.inj (counted.symm.trans fits.rows)
    exact shape.elim (fun other => other fits.blockSize) fun other => other same
  · exact .inr (.inr ⟨_, checked, rfl, fun fits => filled fits.diagonal, nameable⟩)
  · exact .inr (.inr ⟨_, checked, rfl, fun fits => Nat.not_lt.mpr fits.covers narrow, nameable⟩)
  · rw [not_or, not_not, not_not] at shape
    exact .inl ⟨checked, ⟨in_range_iff.mpr range, shape.1, counted.trans (congrArg _ shape.2),
      not_not.mp filled, Nat.not_lt.mp narrow⟩, nameable⟩

theorem check_shape_ok_iff : checkShape matrix inverse = .ok () ↔ Accepts matrix inverse := by
  obtain ⟨checked, fits, _⟩ | ⟨⟨fault, failed⟩, unfit, _⟩ | ⟨refusal, failed, _, unfit, _⟩ :=
    @check_shape_cases α matrix inverse
  · exact iff_of_true checked fits
  · exact iff_of_false (by rw [failed]; exact nofun) unfit
  · exact iff_of_false (by rw [failed]; exact nofun) unfit

theorem check_shape_ok (sound : matrix.Sound) (small : matrix.blockSize ≤ maxBlockSize)
    (shaped : inverse.Shaped matrix) : checkShape matrix inverse = .ok () :=
  check_shape_ok_iff.mpr
    ⟨⟨sound.positive, small⟩, shaped.blockSize, shaped.rows, sound.diagonal, sound.covers⟩

theorem check_shape_of_ok (checked : checkShape matrix inverse = .ok ()) :
    (0 < matrix.blockSize ∧ matrix.blockSize ≤ maxBlockSize) ∧
      inverse.blockSize = matrix.blockSize ∧ inverse.rows = .ok matrix.rows ∧
      matrix.diagonal.size = matrix.rows * matrix.blockSize * matrix.blockSize := by
  have fits := check_shape_ok_iff.mp checked
  exact ⟨fits.range, fits.blockSize, fits.rows, fits.diagonal⟩

variable [Arithmetic α]

theorem setup_checked (name : String) (config : Config α)
    (checked : checkShape matrix inverse = .ok ()) (device : Device α) :
    ∃ solver after, (setupWithInverse name matrix config inverse : DeviceM α (Solver α)) device =
        (.ok solver, after) ∧ MadeFor solver matrix inverse after ∧ device.Extends after ∧
      solver.config = config ∧ solver.communicator = .alone ∧ solver.name = name := by
  obtain ⟨first, ran, grown, diagonal⟩ :=
    Device.upload_run matrix.diagonal (device.report (.setupSpan name))
  obtain ⟨second, ran', grown', factors⟩ := Device.upload_run inverse.values first
  refine ⟨{ name, config, kernel := .ofInverse inverse, rows := matrix.rows
            diagonal := (device.report (.setupSpan name)).nextHandle
            inverse := first.nextHandle
            communicator := .alone
            statistics := Statistics.recordSetup {} 0 },
    second.report (.setUp (Kernel.ofInverse inverse).name matrix.rows matrix.blockSize
      Device.label), ?_, ?_, ?_, rfl, rfl, rfl⟩
  · unfold setupWithInverse
    rw [modify_bind, checked, lift_ok_bind, bind_of_ok ran, bind_of_ok ran', modify_bind]
    rfl
  · have both := diagonal.of_extends grown'
    exact ⟨rfl, rfl, ⟨both.held, both.contents⟩, ⟨factors.held, factors.contents⟩⟩
  · have all := grown.trans grown'
    exact ⟨all.width, all.grown, all.contents⟩

theorem setup_run (name : String) (config : Config α) (sound : matrix.Sound)
    (small : matrix.blockSize ≤ maxBlockSize) (shaped : inverse.Shaped matrix)
    (device : Device α) :
    ∃ solver after, (setupWithInverse name matrix config inverse : DeviceM α (Solver α)) device =
        (.ok solver, after) ∧ MadeFor solver matrix inverse after ∧ device.Extends after ∧
      solver.config = config ∧ solver.communicator = .alone ∧ solver.name = name :=
  setup_checked name config (check_shape_ok sound small shaped) device

theorem MadeFor.upload {solver : Solver α} {device : Device α}
    (made : MadeFor solver matrix inverse device) (some : 0 < solver.owned) (rhs start : Array α)
    (rhsLong : solver.owned ≤ rhs.size) (startLong : solver.owned ≤ start.size) (norm : α) :
    ∃ (request : Request α) (ready : Device α), MadeFor solver matrix inverse ready ∧
      Lent solver request ready ∧ ready.contents request.rhs = rhs ∧
      ready.contents request.iterate = start ∧ request.norm = norm ∧ request.auxiliary = none := by
  obtain ⟨first, _, grown, rhsStored⟩ := Device.upload_run rhs device
  obtain ⟨second, _, grown', startStored⟩ := Device.upload_run start first
  have rhsStored' := rhsStored.of_extends grown'
  have rhsHolds : second.contents device.nextHandle = rhs :=
    rhsStored'.contents (Array.size_pos_iff.mp (by omega))
  have startHolds : second.contents first.nextHandle = start :=
    startStored.contents (Array.size_pos_iff.mp (by omega))
  refine ⟨⟨device.nextHandle, first.nextHandle, norm, none⟩, second,
    (made.of_extends grown).of_extends grown', ⟨rhsStored'.held, startStored.held, ?_, ?_, ?_,
    fun _ given => nomatch given⟩, rhsHolds, startHolds, rfl, rfl⟩
  · rwa [rhsHolds]
  · rwa [startHolds]
  · have diagonal := Device.ne_next_handle (grown.holds made.diagonal.held)
    have inverse := Device.ne_next_handle (grown.holds made.inverse.held)
    have other := Device.ne_next_handle rhsStored.held
    simp [Ne.symm diagonal, Ne.symm inverse, Ne.symm other]

section Accepted

variable {name : String} {config : Config α} {device made : Device α} {solver : Solver α}

theorem setup_ok (ran : (setupWithInverse name matrix config inverse : DeviceM α (Solver α)) device =
    (.ok solver, made)) :
    checkShape matrix inverse = .ok () ∧ MadeFor solver matrix inverse made ∧
      solver.config = config := by
  cases checked : checkShape matrix inverse with
  | error failure =>
      unfold setupWithInverse at ran
      rw [modify_bind, checked] at ran
      cases ran
  | ok _ =>
      obtain ⟨solver', after, ran', fits, _, configured, _⟩ :=
        setup_checked name config checked device
      rw [ran] at ran'
      cases ran'
      exact ⟨rfl, fits, configured⟩

theorem installed_of_setup (sound : matrix.Sound)
    (ran : (setupWithInverse name matrix config inverse : DeviceM α (Solver α)) device =
      (.ok solver, made)) : Installed solver matrix made := by
  obtain ⟨checked, fits, _⟩ := setup_ok ran
  obtain ⟨⟨_, small⟩, same, counted, _⟩ := check_shape_of_ok checked
  exact fits.installed_of_length sound small same (InverseDiagonal.length_of_rows counted)

theorem furnished_of_setup
    (ran : (setupWithInverse name matrix config inverse : DeviceM α (Solver α)) device =
      (.ok solver, made)) : Furnished solver made := by
  obtain ⟨checked, fits, _⟩ := setup_ok ran
  obtain ⟨⟨positive, small⟩, same, counted, filled⟩ := check_shape_of_ok checked
  have size : solver.kernel.blockSize = matrix.blockSize := by
    rw [fits.kernel, Kernel.block_size_of_inverse, same]
  refine ⟨size ▸ positive, size ▸ small, fits.diagonal.held, fits.inverse.held, ?_, ?_⟩
  · rw [size, fits.rows, ← filled]
    exact fits.diagonal.long
  · rw [fits.kernel, fits.rows]
    exact (InverseDiagonal.length_of_rows counted).trans fits.inverse.long

end Accepted

section Checks

variable {solver : Solver α} {request : Request α}

omit [Arithmetic α] in
theorem validate_ok_iff {device : Device α} : solver.validate matrix request device = .ok () ↔
    (matrix.rows = solver.rows ∧ matrix.blockSize = solver.kernel.blockSize) ∧
      solver.owned ≤ (device.contents request.rhs).size ∧
      solver.owned ≤ (device.contents request.iterate).size ∧ request.rhs ≠ request.iterate ∧
      ∀ buffer ∈ request.auxiliary, buffer ≠ request.iterate ∧ buffer ≠ request.rhs := by
  unfold validate
  constructor
  · intro checked
    by_cases shape : matrix.rows ≠ solver.rows ∨ matrix.blockSize ≠ solver.kernel.blockSize
    · rw [if_pos shape] at checked
      cases checked
    rw [if_neg shape] at checked
    by_cases rhsShort : (device.contents request.rhs).size < solver.owned
    · simp only [if_pos rhsShort] at checked
      cases checked
    by_cases iterateShort : (device.contents request.iterate).size < solver.owned
    · simp only [if_neg rhsShort, if_pos iterateShort] at checked
      cases checked
    by_cases same : request.rhs = request.iterate
    · simp only [if_neg rhsShort, if_neg iterateShort, if_pos same] at checked
      cases checked
    by_cases aliased : request.auxiliary = some request.iterate ∨
        request.auxiliary = some request.rhs
    · simp only [if_neg rhsShort, if_neg iterateShort, if_neg same, if_pos aliased] at checked
      cases checked
    rw [not_or, not_not, not_not] at shape
    refine ⟨shape, Nat.not_lt.mp rhsShort, Nat.not_lt.mp iterateShort, same, fun buffer given => ?_⟩
    constructor
    · rintro rfl
      exact aliased (.inl given)
    · rintro rfl
      exact aliased (.inr given)
  · rintro ⟨⟨rows, blockSize⟩, rhsLong, iterateLong, different, auxiliary⟩
    have shape : ¬(matrix.rows ≠ solver.rows ∨ matrix.blockSize ≠ solver.kernel.blockSize) := by
      simp [rows, blockSize]
    have apart : ¬(request.auxiliary = some request.iterate ∨
        request.auxiliary = some request.rhs) := by
      rintro (same | same)
      · exact (auxiliary _ same).1 rfl
      · exact (auxiliary _ same).2 rfl
    simp only [if_neg shape, if_neg (Nat.not_lt.mpr rhsLong), if_neg (Nat.not_lt.mpr iterateLong),
      if_neg different, if_neg apart]
    rfl

omit [Arithmetic α] in
theorem validate_ok {device : Device α} (installed : Installed solver matrix device)
    (lent : Lent solver request device) : solver.validate matrix request device = .ok () := by
  refine validate_ok_iff.mpr ⟨⟨installed.rows, installed.blockSize⟩, lent.rhsLong,
    lent.iterateLong, fun same => lent.iterateApart (by simp [same]), fun buffer given => ?_⟩
  have apart := (lent.auxiliary buffer given).2
  simp only [List.mem_cons, List.not_mem_nil, or_false, not_or] at apart
  exact ⟨apart.1, apart.2.2.2⟩

variable [SquareRoot α]

def announced (solver : Solver α) (scope : SolveScope α μ) : SolveScope α μ :=
  { scope with
    device := scope.device.report (.solveSpan solver.name solver.kernel.name Device.label) }

omit [Arithmetic α] [SquareRoot α] in
theorem announced_alike (solver : Solver α) (scope : SolveScope α μ) :
    (solver.announced scope).device.Alike scope.device :=
  ⟨rfl, rfl⟩

theorem solve_announced (policy : Policy α μ) (scope : SolveScope α μ) :
    solver.solve matrix request policy scope =
      (do
        Failure.ofRefusal (solver.validate matrix request scope.device)
        solver.conclude matrix request policy (← solver.endsAtOnce request) :
          SolveM α μ (Outcome α)) (solver.announced scope) := by
  have reported : (SolveM.report (.solveSpan solver.name solver.kernel.name Device.label) :
      SolveM α μ PUnit) scope = .done (.ok ⟨⟩, solver.announced scope) := rfl
  have asked : (get : SolveM α μ (SolveScope α μ)) (solver.announced scope) =
      .done (.ok (solver.announced scope), solver.announced scope) := rfl
  rw [solve_eq, meet_of_done reported, meet_of_done asked]
  rfl

theorem solve_refused (policy : Policy α μ) {scope : SolveScope α μ} {refusal : Refusal α}
    (checked : solver.validate matrix request scope.device = .error refusal) :
    solver.solve matrix request policy scope =
      .done (.error (.refused refusal), solver.announced scope) := by
  rw [solve_announced, checked]
  rfl

theorem solve_passed (policy : Policy α μ) {scope : SolveScope α μ}
    (checked : solver.validate matrix request scope.device = .ok ()) :
    solver.solve matrix request policy scope =
      (solver.endsAtOnce request >>= solver.conclude matrix request policy)
        (solver.announced scope) := by
  rw [solve_announced, checked]
  rfl

theorem solve_checked (policy : Policy α μ) (scope : SolveScope α μ)
    (installed : Installed solver matrix scope.device) (lent : Lent solver request scope.device) :
    ∃ device, device.Alike scope.device ∧ solver.solve matrix request policy scope =
      (solver.endsAtOnce request >>= solver.conclude matrix request policy)
        { scope with device := device } :=
  ⟨_, solver.announced_alike scope, solve_passed policy (validate_ok installed lent)⟩

theorem solve_run (policy : Policy α μ) (scope : SolveScope α μ)
    (installed : Installed solver matrix scope.device) (lent : Lent solver request scope.device)
    (positive : Arithmetic.le request.norm zeroNorm = false) :
    ∃ device, device.Alike scope.device ∧ solver.solve matrix request policy scope =
      solver.relax matrix request policy { scope with device := device } := by
  obtain ⟨device, alike, checked⟩ := solve_checked policy scope installed lent
  refine ⟨device, alike, ?_⟩
  have some : (solver.endsAtOnce request : SolveM α μ Bool) { scope with device := device } =
      .done (.ok false, { scope with device := device }) := by
    unfold endsAtOnce
    rw [if_neg (by simp [positive])]
    rfl
  rw [checked, meet_of_done some]
  unfold conclude
  rw [if_neg Bool.false_ne_true]

/-- Only with a norm that counts as zero do the ranks ask each other whether there is anything
to do, and that changes no buffer. -/
theorem ends_at_once_run (request : Request α) {scope : SolveScope α μ}
    (long : solver.owned ≤ (scope.device.contents request.rhs).size) :
    ∃ last, last.Alike scope.device ∧ (solver.endsAtOnce request : SolveM α μ Bool) scope =
      if Arithmetic.le request.norm zeroNorm then
        (Collective.allReduceSum solver.communicator (Arithmetic.squares
          ((scope.device.contents request.rhs).extract 0 solver.owned).toList)).bind fun total =>
            .done (.ok !(Arithmetic.lt zeroNorm (SquareRoot.root total)), { scope with device := last })
      else .done (.ok false, { scope with device := last }) := by
  unfold endsAtOnce
  by_cases zero : Arithmetic.le request.norm zeroNorm = true
  · obtain ⟨last, alike, downloaded⟩ := Device.download_run long
    refine ⟨last, alike, ?_⟩
    unfold needsSolving
    rw [if_pos zero, if_pos zero, bind_assoc, meet_of_done (SolveM.call_run downloaded)]
    cases solver.communicator with
    | alone => rfl
    | member rank ranks => rfl
  · refine ⟨scope.device, ⟨rfl, rfl⟩, ?_⟩
    rw [if_neg zero, if_neg zero]
    rfl

theorem solve_alone (policy : Policy α μ) (scope : SolveScope α μ)
    (installed : Installed solver matrix scope.device)
    (lent : Lent solver request scope.device) (alone : solver.communicator = .alone) :
    ∃ now after, after.device.Alike scope.device ∧
      (now = true → Arithmetic.le request.norm zeroNorm = true) ∧
      solver.solve matrix request policy scope =
        solver.conclude matrix request policy now after := by
  obtain ⟨device, alike, checked⟩ := solve_checked policy scope installed lent
  have long : solver.owned ≤ (device.contents request.rhs).size :=
    (lent.of_extends (.of_alike alike)).rhsLong
  obtain ⟨last, alike', asked⟩ :=
    @ends_at_once_run α μ _ solver _ request { scope with device := device } long
  have same : last.Alike scope.device :=
    ⟨alike'.width.trans alike.width, alike'.buffers.trans alike.buffers⟩
  rw [alone] at asked
  by_cases zero : Arithmetic.le request.norm zeroNorm = true
  · rw [if_pos zero] at asked
    exact ⟨_, { scope with device := last }, same, fun _ => zero, checked.trans (meet_of_done asked)⟩
  · rw [if_neg zero] at asked
    exact ⟨false, { scope with device := last }, same, fun now => absurd now Bool.false_ne_true,
      checked.trans (meet_of_done asked)⟩

theorem conclude_at_once (solver : Solver α) (matrix : Matrix α) (request : Request α)
    (policy : Policy α μ) (scope : SolveScope α μ) :
    ∃ after : SolveScope α μ, after.device.Alike scope.device ∧
      solver.conclude matrix request policy true scope = .done (.ok nothingToSolve, after) := by
  unfold conclude
  rw [if_pos rfl]
  have recorded : (SolveM.recordSolve 0 : SolveM α μ PUnit) scope = .done (.ok ⟨⟩,
      { scope with statistics := scope.statistics.recordSolve 0 0 }) := rfl
  rw [meet_of_done recorded]
  by_cases loud : 1 ≤ solver.config.verbosity
  · exact ⟨{ scope with
      statistics := scope.statistics.recordSolve 0 0
      device := scope.device.report .nothingToSolve }, ⟨rfl, rfl⟩, by rw [if_pos loud]; rfl⟩
  · exact ⟨{ scope with statistics := scope.statistics.recordSolve 0 0 }, ⟨rfl, rfl⟩,
      by rw [if_neg loud]; rfl⟩

end Checks
end Solver
end Relaxation

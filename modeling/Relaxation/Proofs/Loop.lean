import Relaxation.Proofs.Start

/-!
The loop of a solve. The values of the next iterate are a function of those of this one,
ghost values included, and the policy sees one residual after the other until it stops.
-/

namespace Relaxation

variable {α μ : Type}

namespace Solver

variable [Arithmetic α]

def next (matrix : Matrix α) (kernel : Kernel) (sources : Sources α) (x : Array α) : Array α :=
  (Launch.relaxed kernel sources matrix.rows (matrix.couplings x).toArray x).toArray

section Sweeping

variable {matrix : Matrix α} {sweep : Sweep} {device after : Device α} {x : Array α}

theorem row_update_eq (fitting : Fitting matrix sweep device)
    (long : matrix.columns * matrix.blockSize ≤ x.size)
    (same : ∀ index, index < matrix.columns * matrix.blockSize →
      (device.contents sweep.previous)[index]? = x[index]?) {row : Nat} (inside : row < matrix.rows) :
    sweep.kernel.rowUpdate (device.sources sweep)
        (Storage.overwrite (device.contents sweep.iterate) 0
          (matrix.couplings (device.contents sweep.previous))) (device.contents sweep.previous) row =
      sweep.kernel.rowUpdate (device.sources sweep) (matrix.couplings x).toArray x row := by
  obtain ⟨fits, _⟩ := Device.fits_of_long_enough fitting.ready.positive fitting.ready.small
    fitting.ready.width fitting.ready.long
  have covers := Nat.mul_le_mul_right matrix.blockSize fitting.sound.covers
  -- the buffer may be longer than the vector, but no column reaches past the last
  have coupled : matrix.couplings (device.contents sweep.previous) = matrix.couplings x :=
    Matrix.couplings_congr fitting.sound fun index inside => by
      rw [Array.getD_eq_getD_getElem?, Array.getD_eq_getD_getElem?, same index inside]
  have length := Matrix.length_couplings matrix x
  have own := Kernel.row_end_le sweep.kernel.blockSize inside
  rw [← fitting.rows] at fits
  rw [fitting.blockSize] at length covers long same
  have iterateLong : matrix.rows * sweep.kernel.blockSize ≤
      (device.contents sweep.iterate).size := fits.iterateLong
  rw [coupled]
  apply Kernel.row_update_congr fits.covered inside
  · rw [Storage.size_overwrite]
    exact iterateLong
  · rw [List.size_toArray, length]
  · exact fits.previousLong
  · omega
  · intro k bound
    rw [Storage.getElem?_overwrite_front _ (by omega) (by omega), List.getElem?_toArray]
  · intro k bound
    exact same _ (by omega)

theorem advance_eq (fitting : Fitting matrix sweep device)
    (long : matrix.columns * matrix.blockSize ≤ x.size)
    (same : ∀ index, index < matrix.columns * matrix.blockSize →
      (device.contents sweep.previous)[index]? = x[index]?) :
    advance matrix sweep (device.sources sweep) (device.contents sweep.iterate)
      (device.contents sweep.previous) =
        (next matrix sweep.kernel (device.sources sweep) x).toList := by
  unfold advance next Launch.relaxed
  rw [← fitting.rows, List.toList_toArray]
  apply List.flatMap_congr
  intro row member
  rw [row_update_eq fitting long same (List.mem_range.mp member)]

theorem square_eq (fitting : Fitting matrix sweep device)
    (long : matrix.columns * matrix.blockSize ≤ x.size)
    (same : ∀ index, index < matrix.columns * matrix.blockSize →
      (device.contents sweep.previous)[index]? = x[index]?) :
    square matrix sweep device = Launch.levels sweep.geometry matrix.rows fun row =>
      (sweep.kernel.rowUpdate (device.sources sweep) (matrix.couplings x).toArray x row).square := by
  rw [square, Launch.partials_total_eq, ← fitting.rows]
  apply Launch.levels_congr
  intro row inside
  rw [row_update_eq fitting long same inside]

theorem size_next {kernel : Kernel} {sources : Sources α} (blockSize : kernel.blockSize = matrix.blockSize)
    (covered : kernel.Covered matrix.rows sources)
    (long : matrix.rows * matrix.blockSize ≤ x.size) :
    (next matrix kernel sources x).size = matrix.rows * matrix.blockSize := by
  unfold next
  rw [List.size_toArray, Launch.length_relaxed covered, blockSize]
  · rw [blockSize, List.size_toArray, Matrix.length_couplings]
  · rwa [blockSize]

theorem Advanced.sources (advanced : Advanced matrix sweep device after)
    (fitting : Fitting matrix sweep device) : after.sources sweep = device.sources sweep := by
  obtain ⟨⟨iterate, previous, partials⟩, residual⟩ := fitting.separate
  simp only [List.mem_cons, List.not_mem_nil, or_false, not_or] at iterate previous partials residual
  have kept : ∀ buffer, buffer ≠ sweep.iterate → buffer ≠ sweep.previous →
      buffer ≠ sweep.partials → buffer ≠ sweep.residual →
      after.contents buffer = device.contents buffer := fun buffer first second third fourth =>
    advanced.others buffer (by simp [first, second, third, fourth])
  unfold Device.sources
  rw [kept sweep.diagonal (Ne.symm iterate.1) (Ne.symm previous.2.1) (Ne.symm partials.2.2.1)
      (Ne.symm residual.2.2.2.1),
    kept sweep.inverse (Ne.symm iterate.2.1) (Ne.symm previous.2.2.1) (Ne.symm partials.2.2.2.1)
      (Ne.symm residual.2.2.2.2.1),
    kept sweep.rhs (Ne.symm iterate.2.2) (Ne.symm previous.2.2.2) (Ne.symm partials.2.2.2.2)
      (Ne.symm residual.2.2.2.2.2)]

/-- A device between two iterations: both iterates hold the owned values of `x`. -/
structure Carries (matrix : Matrix α) (sweep : Sweep) (sources : Sources α) (x : Array α)
    (device : Device α) : Prop where
  fitting : Fitting matrix sweep device
  sources : device.sources sweep = sources
  iterate : ∀ index, index < matrix.rows * matrix.blockSize →
    (device.contents sweep.iterate)[index]? = x[index]?
  previous : ∀ index, index < matrix.rows * matrix.blockSize →
    (device.contents sweep.previous)[index]? = x[index]?

omit [Arithmetic α] in
theorem Carries.of_alike {sources : Sources α} (carries : Carries matrix sweep sources x device)
    (alike : after.Alike device) : Carries matrix sweep sources x after where
  fitting := carries.fitting.of_sizes alike.width (by simp only [Device.sizes, alike.buffers])
  sources := by
    rw [← carries.sources]
    simp only [Device.sources, alike.contents]
  iterate := by simpa only [alike.contents] using carries.iterate
  previous := by simpa only [alike.contents] using carries.previous

omit [Arithmetic α] in
theorem Carries.read {sources : Sources α} (carries : Carries matrix sweep sources x device)
    (size : x.size = matrix.rows * matrix.blockSize) :
    matrix.rows * matrix.blockSize ≤ (device.contents sweep.iterate).size ∧
      (device.contents sweep.iterate).extract 0 (matrix.rows * matrix.blockSize) = x :=
  ⟨carries.fitting.iterate_long, Storage.extract_front size carries.iterate⟩

section Begin

variable {solver : Solver α} {request : Request α}

theorem Begun.owned (begun : Begun solver matrix request device sweep after) :
    solver.owned = matrix.rows * matrix.blockSize := by
  rw [Solver.owned, begun.fitting.rows, begun.fitting.blockSize, begun.rows, begun.kernel]

theorem Begun.carries (begun : Begun solver matrix request device sweep after)
    (start : ∀ index, index < matrix.rows * matrix.blockSize →
      (device.contents request.iterate)[index]? = x[index]?) :
    Carries matrix sweep ⟨device.contents solver.diagonal, device.contents solver.inverse,
      device.contents request.rhs⟩ x after where
  fitting := begun.fitting
  sources := begun.sources
  iterate index inside := by rw [begun.iterate, start index inside]
  previous index inside := by
    rw [begun.previous index (begun.owned ▸ inside), start index inside]

end Begin

theorem Advanced.carries (advanced : Advanced matrix sweep device after)
    (fitting : Fitting matrix sweep device)
    (long : matrix.columns * matrix.blockSize ≤ x.size)
    (same : ∀ index, index < matrix.columns * matrix.blockSize →
      (device.contents sweep.previous)[index]? = x[index]?) :
    Carries matrix sweep (device.sources sweep) (next matrix sweep.kernel (device.sources sweep) x)
      after := by
  have covers := Nat.mul_le_mul_right matrix.blockSize fitting.sound.covers
  obtain ⟨fits, _⟩ := Device.fits_of_long_enough fitting.ready.positive fitting.ready.small
    fitting.ready.width fitting.ready.long
  have length : (next matrix sweep.kernel (device.sources sweep) x).toList.length =
      matrix.rows * matrix.blockSize := by
    rw [Array.length_toList, size_next fitting.blockSize.symm (fitting.rows ▸ fits.covered)
      (covers.trans long)]
  have shown : ∀ values : Array α, matrix.rows * matrix.blockSize ≤ values.size → ∀ index,
      index < matrix.rows * matrix.blockSize → (Storage.overwrite values 0
        (next matrix sweep.kernel (device.sources sweep) x).toList)[index]? =
          (next matrix sweep.kernel (device.sources sweep) x)[index]? := by
    intro values room index inside
    rw [Storage.getElem?_overwrite_front values (by omega) (by omega), Array.getElem?_toList]
  refine ⟨fitting.of_sizes advanced.width advanced.sizes, advanced.sources fitting, ?_, ?_⟩
  · rw [advanced.iterate, advance_eq fitting long same]
    exact shown _ fitting.iterate_long
  · rw [advanced.previous, advance_eq fitting long same]
    exact shown _ (covers.trans fitting.extended)

end Sweeping

variable [SquareRoot α] {solver : Solver α} {matrix : Matrix α} {policy : Policy α μ}
  {sweep : Sweep} {origin : ScratchOrigin} {remaining : Nat} {launcher : Launcher}
  {progress : Progress α} {history : Array α} {scope : SolveScope α μ}

def observed (progress : Progress α) (residual : α) : Progress α :=
  { progress with
    iterations := progress.iterations + 1
    residual := some residual
    initialResidual :=
      if progress.iterations + 1 = 1 then some residual else progress.initialResidual }

def judge (solver : Solver α) (matrix : Matrix α) (policy : Policy α μ) (sweep : Sweep)
    (origin : ScratchOrigin) (remaining : Nat) (progress : Progress α) (history : Array α)
    (answer : α × Launcher) : SolveM α μ (Outcome α) := do
  let progress := observed progress answer.1
  let state ← SolveM.query policy progress.iterations answer.1 progress
  if 2 ≤ solver.config.verbosity then SolveM.report (.swept progress.iterations answer.1)
  if state.terminal then
    SolveM.recordSolve progress.iterations
    if 1 ≤ solver.config.verbosity then
      SolveM.report (.finished state progress.iterations answer.1)
    pure
      { state
        residual := answer.1
        history := history.push answer.1
        iterations := progress.iterations
        initialResidual := progress.initialResidual
        scratch := some origin }
  else
    solver.iterate matrix policy sweep origin remaining answer.2 progress (history.push answer.1)

theorem iterate_succ :
    solver.iterate matrix policy sweep origin (remaining + 1) launcher progress history =
      solver.sweepOnce matrix sweep launcher >>=
        solver.judge matrix policy sweep origin remaining progress history :=
  rfl

omit [Arithmetic α] [SquareRoot α] in
theorem report_if_bind {β : Type} (p : Prop) [Decidable p] (event : Event α)
    (rest : SolveM α μ β) (scope : SolveScope α μ) :
    ∃ device, device.Alike scope.device ∧
      (if p then (do SolveM.report event; rest) else rest : SolveM α μ β) scope =
        rest { scope with device := device } := by
  by_cases loud : p
  · exact ⟨scope.device.report event, ⟨rfl, rfl⟩, by rw [if_pos loud]; rfl⟩
  · exact ⟨scope.device, ⟨rfl, rfl⟩, by rw [if_neg loud]⟩

def verdict (policy : Policy α μ) (progress : Progress α) (residual : α) (memory : μ) :
    SolveState × μ :=
  policy.test (progress.iterations + 1) residual (observed progress residual) memory

inductive StopsIn (policy : Policy α μ) (residuals : Nat → α) : Nat → Progress α → μ → Prop where
  | now {progress : Progress α} {memory : μ}
      (stopped : (verdict policy progress (residuals (progress.iterations + 1)) memory).1.terminal =
        true) : StopsIn policy residuals 1 progress memory
  | later {left : Nat} {progress : Progress α} {memory : μ}
      (going : (verdict policy progress (residuals (progress.iterations + 1)) memory).1.terminal =
        false)
      (rest : StopsIn policy residuals left
        (observed progress (residuals (progress.iterations + 1)))
        (verdict policy progress (residuals (progress.iterations + 1)) memory).2) :
      StopsIn policy residuals (left + 1) progress memory

def stopped (origin : ScratchOrigin) (progress : Progress α) (history : Array α) (residual : α)
    (state : SolveState) : Outcome α :=
  { state
    residual
    history := history.push residual
    iterations := progress.iterations + 1
    initialResidual := (observed progress residual).initialResidual
    scratch := some origin }

omit [Arithmetic α] [SquareRoot α] in
theorem StopsIn.pos {residuals : Nat → α} {left : Nat} {memory : μ}
    (stops : StopsIn policy residuals left progress memory) : 0 < left := by
  cases stops <;> exact Nat.succ_pos _

theorem judge_run (solver : Solver α) (matrix : Matrix α) (policy : Policy α μ) (sweep : Sweep)
    (origin : ScratchOrigin) (remaining : Nat) (launcher : Launcher) (progress : Progress α)
    (history : Array α) (residual : α) (scope : SolveScope α μ) :
    ∃ after : SolveScope α μ, after.device.Alike scope.device ∧
      after.memory = (verdict policy progress residual scope.memory).2 ∧
      solver.judge matrix policy sweep origin remaining progress history (residual, launcher) scope =
        if (verdict policy progress residual scope.memory).1.terminal then
          .done (.ok (stopped origin progress history residual
            (verdict policy progress residual scope.memory).1), after)
        else solver.iterate matrix policy sweep origin remaining launcher
          (observed progress residual) (history.push residual) after := by
  generalize judged : verdict policy progress residual scope.memory = answer
  have asked : (SolveM.query policy (observed progress residual).iterations residual
      (observed progress residual) : SolveM α μ SolveState) scope =
      .done (.ok answer.1, { scope with memory := answer.2 }) := by
    rw [← judged]
    rfl
  unfold judge
  dsimp only
  rw [meet_of_done asked]
  obtain ⟨device, alike, reported⟩ := report_if_bind (2 ≤ solver.config.verbosity)
    (.swept (observed progress residual).iterations residual) _ { scope with memory := answer.2 }
  rw [reported]
  by_cases stop : answer.1.terminal = true
  · have recorded : (SolveM.recordSolve (observed progress residual).iterations :
        SolveM α μ PUnit) { scope with device := device, memory := answer.2 } = .done (.ok ⟨⟩,
          { device := device
            statistics := scope.statistics.recordSolve (observed progress residual).iterations 0
            memory := answer.2 }) := rfl
    rw [if_pos stop, meet_of_done recorded]
    obtain ⟨last, alike', told⟩ := report_if_bind (1 ≤ solver.config.verbosity)
      (.finished answer.1 (observed progress residual).iterations residual) _
      { device := device
        statistics := scope.statistics.recordSolve (observed progress residual).iterations 0
        memory := answer.2 }
    rw [told]
    simp only [if_pos stop]
    exact ⟨_, ⟨alike'.width.trans alike.width, alike'.buffers.trans alike.buffers⟩, rfl, rfl⟩
  · refine ⟨{ scope with device := device, memory := answer.2 }, alike, rfl, ?_⟩
    rw [if_neg stop, if_neg stop]

def residuals (squares : Nat → α) (iterations : Nat) : Array α :=
  ((List.range iterations).map fun t => SquareRoot.root (squares (t + 1))).toArray

omit [Arithmetic α] in
theorem push_residuals (squares : Nat → α) (iterations : Nat) :
    (residuals squares iterations).push (SquareRoot.root (squares (iterations + 1))) =
      residuals squares (iterations + 1) := by
  simp [residuals, List.range_succ]

structure Finished (matrix : Matrix α) (sweep : Sweep) (sources : Sources α)
    (values : Nat → Array α) (squares : Nat → α) (limit last : Nat)
    (finished : Except (Failure α) (Outcome α) × SolveScope α μ) : Prop where
  carries : Carries matrix sweep sources (values last) finished.2.device
  result : (finished.1 = .error (.faulted .overflow) ∧ last = limit) ∨
    ∃ outcome, finished.1 = .ok outcome ∧ 0 < last ∧ outcome.iterations = last ∧
      outcome.history = residuals squares last ∧
      outcome.residual = SquareRoot.root (squares last)

section Alone

variable {sources : Sources α} {x : Array α} (alone : solver.communicator = .alone)
  (whole : matrix.halo = none) (square : matrix.columns = matrix.rows)

include alone whole square

theorem sweep_alone (scope : SolveScope α μ) (size : x.size = matrix.rows * matrix.blockSize)
    (carries : Carries matrix sweep sources x scope.device) :
    ∃ after, solver.sweepOnce matrix sweep .direct scope = .done (.ok
        (SquareRoot.root (Solver.square matrix sweep scope.device), .direct),
          { scope with device := after }) ∧
      Carries matrix sweep sources (next matrix sweep.kernel sources x) after := by
  have front : ∀ index, index < matrix.columns * matrix.blockSize →
      (scope.device.contents sweep.previous)[index]? = x[index]? := by
    rw [square]
    exact carries.previous
  have long : matrix.columns * matrix.blockSize ≤ x.size := by
    rw [square, size]
  obtain ⟨after, ran, advanced⟩ := finish_sweep_run solver scope carries.fitting
  have refreshed : (SolveM.onDevice (matrix.refresh sweep.previous) : SolveM α μ Unit) scope =
      .done (.ok (), scope) := by
    unfold SolveM.onDevice
    rw [Matrix.refresh_alone whole]
    rfl
  refine ⟨after, ?_, ?_⟩
  · rw [sweep_once_eq solver .direct carries.fitting, meet_of_done refreshed, ran, alone]
    rfl
  · rw [← carries.sources]
    exact advanced.carries carries.fitting long front

theorem iteration_alone (policy : Policy α μ) (origin : ScratchOrigin) (remaining : Nat)
    (progress : Progress α) (history : Array α) (scope : SolveScope α μ) {residual : α}
    (size : x.size = matrix.rows * matrix.blockSize)
    (carries : Carries matrix sweep sources x scope.device)
    (shown : SquareRoot.root (Solver.square matrix sweep scope.device) = residual) :
    ∃ last : SolveScope α μ,
      Carries matrix sweep sources (next matrix sweep.kernel sources x) last.device ∧
      last.memory = (verdict policy progress residual scope.memory).2 ∧
      solver.iterate matrix policy sweep origin (remaining + 1) .direct progress history scope =
        if (verdict policy progress residual scope.memory).1.terminal then
          .done (.ok (stopped origin progress history residual
            (verdict policy progress residual scope.memory).1), last)
        else solver.iterate matrix policy sweep origin remaining .direct
          (observed progress residual) (history.push residual) last := by
  obtain ⟨after, swept, carries'⟩ := sweep_alone alone whole square scope size carries
  rw [shown] at swept
  obtain ⟨last, alike, kept, judged⟩ := solver.judge_run matrix policy sweep origin remaining
    .direct progress history residual { scope with device := after }
  exact ⟨last, carries'.of_alike alike, kept, by rw [iterate_succ, meet_of_done swept, judged]⟩

/-- Alone, a loop goes through the values one after the other until the policy stops it
or its counter ends. -/
theorem iterate_alone (policy : Policy α μ) (origin : ScratchOrigin) (remaining : Nat)
    (progress : Progress α) (scope : SolveScope α μ) {values : Nat → Array α} {squares : Nat → α}
    (sizes : ∀ t, (values t).size = matrix.rows * matrix.blockSize)
    (steps : ∀ t, values (t + 1) = next matrix sweep.kernel sources (values t))
    (squared : ∀ t device, Carries matrix sweep sources (values t) device →
      Solver.square matrix sweep device = squares (t + 1))
    (carries : Carries matrix sweep sources (values progress.iterations) scope.device) :
    ∃ last finished, solver.iterate matrix policy sweep origin remaining .direct progress
        (residuals squares progress.iterations) scope = .done finished ∧
      Finished matrix sweep sources values squares (progress.iterations + remaining) last
        finished := by
  induction remaining generalizing progress scope with
  | zero => exact ⟨_, _, rfl, carries, .inl ⟨rfl, rfl⟩⟩
  | succ remaining ih =>
      obtain ⟨last, carries', _, ran⟩ := iteration_alone alone whole square policy origin remaining
        progress (residuals squares progress.iterations) scope (sizes _) carries
        (congrArg SquareRoot.root (squared _ _ carries))
      rw [← steps] at carries'
      rw [ran, push_residuals]
      split
      · exact ⟨_, _, rfl, carries', .inr ⟨_, rfl, Nat.succ_pos _, rfl, push_residuals .., rfl⟩⟩
      · obtain ⟨count, finished, ended, good⟩ := ih (observed progress
          (SquareRoot.root (squares (progress.iterations + 1)))) last carries'
        refine ⟨count, finished, ended, ?_⟩
        have limit : progress.iterations + 1 + remaining = progress.iterations + (remaining + 1) := by
          omega
        rwa [← limit]

theorem iterate_alone_stops (origin : ScratchOrigin) (remaining : Nat) (history : Array α)
    (scope : SolveScope α μ) {values : Nat → Array α} {residuals : Nat → α} {left : Nat}
    (sizes : ∀ t, (values t).size = matrix.rows * matrix.blockSize)
    (steps : ∀ t, values (t + 1) = next matrix sweep.kernel sources (values t))
    (shown : ∀ t device, Carries matrix sweep sources (values t) device →
      SquareRoot.root (Solver.square matrix sweep device) = residuals (t + 1))
    (stops : StopsIn policy residuals left progress scope.memory) (room : left ≤ remaining)
    (carries : Carries matrix sweep sources (values progress.iterations) scope.device) :
    ∃ outcome last, solver.iterate matrix policy sweep origin remaining .direct progress history
        scope = .done (.ok outcome, last) ∧ outcome.iterations = progress.iterations + left ∧
      Carries matrix sweep sources (values (progress.iterations + left)) last.device := by
  generalize held : scope.memory = memory at stops
  induction stops generalizing remaining history scope with
  | @now progress memory stops =>
      obtain ⟨remaining, rfl⟩ := Nat.exists_eq_add_of_le' room
      obtain ⟨last, carries', _, ran⟩ := iteration_alone alone whole square policy origin remaining
        progress history scope (sizes _) carries (shown _ _ carries)
      rw [held, if_pos stops] at ran
      exact ⟨_, last, ran, rfl, (steps _).symm ▸ carries'⟩
  | @later left progress memory going rest ih =>
      obtain ⟨remaining, rfl⟩ := Nat.exists_eq_add_of_le' (Nat.le_of_add_left_le room)
      obtain ⟨last, carries', kept, ran⟩ := iteration_alone alone whole square policy origin
        remaining progress history scope (sizes _) carries (shown _ _ carries)
      rw [held] at kept ran
      rw [if_neg (by simp [going])] at ran
      rw [← steps] at carries'
      have together : progress.iterations + (left + 1) = progress.iterations + 1 + left := by omega
      rw [ran, together]
      exact ih remaining _ last (Nat.le_of_succ_le_succ room) carries' kept

end Alone
end Solver
end Relaxation

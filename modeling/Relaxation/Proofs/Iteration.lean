import Relaxation.Proofs.LaunchMode
import Relaxation.Proofs.Sweep

/-!
One iteration of a solve: the off-diagonal product, the two launches and the readback.
Once the ghost values are current it is the same on every rank, and the ranks meet
again only to add up their residuals.
-/

namespace Relaxation

variable {α μ : Type}

section Meeting

variable {ε σ β γ : Type} {first : ExceptT ε (StateT σ (Collective α)) β}
  {next : β → ExceptT ε (StateT σ (Collective α)) γ} {before after : σ}

theorem meet_bind (first : ExceptT ε (StateT σ (Collective α)) β)
    (next : β → ExceptT ε (StateT σ (Collective α)) γ) (before : σ) :
    (first >>= next) before = (first before).bind fun answer =>
      match answer.1 with
      | .ok result => next result answer.2
      | .error failure => .done (.error failure, answer.2) := by
  change (first before).bind _ = _
  congr 1
  funext answer
  obtain ⟨result | failure, state⟩ := answer <;> rfl

theorem meet_of_done {result : β} (ran : first before = .done (.ok result, after)) :
    (first >>= next) before = next result after := by
  rw [meet_bind, ran]
  rfl

end Meeting

namespace Matrix

theorem apply_off_diagonal_run [Arithmetic α] (matrix : Matrix α) {input output : Buffer}
    {device : Device α} (different : output ≠ input)
    (long : matrix.columns * matrix.blockSize ≤ (device.contents input).size)
    (fits : matrix.rows * matrix.blockSize ≤ (device.contents output).size) :
    matrix.applyOffDiagonal input output device =
      (matrix.refresh input >>= fun _ => Operation.call (matrix.multiply input output)) device := by
  have claimed : (Operation.call (Device.claim .operatorOutput output [input]) :
      Operation α Unit) device = .done (.ok (), device) := by
    unfold Operation.call
    rw [Device.claim_apart (by simpa using different)]
  have enough : ¬((device.contents input).size < matrix.columns * matrix.blockSize ∨
      (device.contents output).size < matrix.rows * matrix.blockSize) :=
    not_or.mpr ⟨Nat.not_lt.mpr long, Nat.not_lt.mpr fits⟩
  unfold applyOffDiagonal
  rw [meet_of_done claimed]
  change (if _ then _ else _ : Operation α Unit) device = _
  rw [if_neg enough]

theorem refresh_alone {matrix : Matrix α} (alone : matrix.halo = none) (input : Buffer)
    (device : Device α) : matrix.refresh input device = .done (.ok (), device) := by
  unfold refresh
  rw [alone]
  rfl

theorem multiply_run [Arithmetic α] {matrix : Matrix α} (sound : matrix.Sound)
    {input output : Buffer} {device : Device α}
    (long : matrix.columns * matrix.blockSize ≤ (device.contents input).size)
    (fits : matrix.rows * matrix.blockSize ≤ (device.contents output).size) :
    ∃ counted : Device α, counted.Alike device ∧ matrix.multiply input output device =
      (.ok (), counted.store output (Storage.overwrite (device.contents output) 0
        (matrix.couplings (device.contents input)))) := by
  generalize counted : device.count
    (fun counters => { counters with dispatches := counters.dispatches + 1 }) = later
  have alike : later.Alike device := by
    subst counted
    exact ⟨rfl, rfl⟩
  have product := off_diagonal_product_eq sound long fits
  rw [← alike.contents input, ← alike.contents output] at product ⊢
  refine ⟨later, alike, ?_⟩
  unfold multiply Device.countDispatch
  rw [modify_bind, get_bind, counted, product]
  rfl

end Matrix

namespace SolveM

theorem on_device_bind {β γ : Type} (first : Operation α β) (next : β → Operation α γ) :
    (SolveM.onDevice (first >>= next) : SolveM α μ γ) =
      SolveM.onDevice first >>= fun result => SolveM.onDevice (next result) := by
  funext scope
  rw [meet_bind]
  unfold SolveM.onDevice
  rw [meet_bind]
  change Collective.bind (Collective.bind _ _) _ = Collective.bind (Collective.bind _ _) _
  rw [Collective.bind_assoc, Collective.bind_assoc]
  congr 1
  funext answer
  obtain ⟨result | failure, device⟩ := answer <;> rfl

theorem call_run {β : Type} {call : DeviceM α β} {result : Except (Failure α) β}
    {after : Device α} {scope : SolveScope α μ} (ran : call scope.device = (result, after)) :
    (SolveM.call call : SolveM α μ β) scope = .done (result, { scope with device := after }) := by
  unfold SolveM.call SolveM.onDevice Operation.call
  rw [ran]
  rfl

theorem issue_run [Arithmetic α] {launcher next : Launcher} {sweep : Sweep} {after : Device α}
    {scope : SolveScope α μ}
    (issued : launcher.issue sweep scope.device = ((.ok (), next), after)) :
    (SolveM.issue launcher sweep : SolveM α μ Launcher) scope =
      .done (.ok next, { scope with device := after }) := by
  unfold SolveM.issue
  rw [issued]
  rfl

end SolveM

theorem Device.Swept.of_alike [Arithmetic α] {sweep : Sweep} {before after last : Device α}
    (swept : Swept sweep before after) (alike : last.Alike after) : Swept sweep before last where
  width := alike.width.trans swept.width
  sizes := by
    rw [← swept.sizes]
    simp only [Device.sizes, alike.buffers]
  iterate := (alike.contents _).trans swept.iterate
  previous := (alike.contents _).trans swept.previous
  residual := by
    rw [alike.contents]
    exact swept.residual
  others other apart := (alike.contents _).trans (swept.others other apart)

namespace Launcher

variable [Arithmetic α] {sweep : Sweep} {device : Device α}

theorem direct_issue_run (separate : Device.Separate sweep) (ready : Device.Ready sweep device) :
    ∃ after, direct.issue sweep device = ((.ok (), direct), after) ∧
      Device.Swept sweep device after := by
  obtain ⟨after, ran, swept⟩ := Device.launches_run separate ready
  refine ⟨after, ?_, swept⟩
  rw [issue_direct]
  unfold oneByOne
  rw [ran]

/-- A launcher of the loop over this sweep: launching one by one, or with a graph of it. -/
def Serves (sweep : Sweep) (launcher : Launcher) : Prop :=
  launcher = .direct ∨ Paired sweep .direct launcher

omit [Arithmetic α] in
theorem serves_of_mode (sweep : Sweep) (mode : LaunchMode) : Serves sweep (.ofMode mode) := by
  cases mode with
  | direct => exact .inl rfl
  | graph => exact .inr .fresh

theorem Serves.issue_run {launcher : Launcher} (serves : Serves sweep launcher)
    (separate : Device.Separate sweep) (ready : Device.Ready sweep device) :
    ∃ next after, launcher.issue sweep device = ((.ok (), next), after) ∧ Serves sweep next ∧
      Device.Swept sweep device after := by
  obtain ⟨after, issued, swept⟩ := direct_issue_run separate ready
  rcases serves with rfl | paired
  · exact ⟨direct, after, issued, .inl rfl, swept⟩
  · -- a graph does what the launches one by one do
    obtain ⟨outcome, alike, paired'⟩ := issue_paired paired (Device.Alike.refl device)
    rw [issued] at outcome alike paired'
    generalize launcher.issue sweep device = answer at outcome alike paired' ⊢
    obtain ⟨⟨result, next⟩, last⟩ := answer
    dsimp only at outcome alike paired'
    exact ⟨next, last, by rw [outcome], .inr paired',
      swept.of_alike ⟨alike.width.symm, alike.buffers.symm⟩⟩

end Launcher

namespace Storage

theorem overwrite_overwrite (values : Array α) (start : Nat) {first second : List α}
    (same : first.length = second.length) :
    overwrite (overwrite values start first) start second = overwrite values start second := by
  apply Array.ext_getElem?
  intro index
  rw [getElem?_overwrite, getElem?_overwrite, getElem?_overwrite, size_overwrite, same]
  by_cases inside : start ≤ index ∧ index < start + second.length ∧ index < values.size
  · rw [if_pos inside, if_pos inside]
  · rw [if_neg inside, if_neg inside, if_neg inside]

end Storage

namespace Solver

variable [Arithmetic α]

def advance (matrix : Matrix α) (sweep : Sweep) (sources : Sources α)
    (iterate previous : Array α) : List α :=
  Launch.relaxed sweep.kernel sources sweep.rows
    (Storage.overwrite iterate 0 (matrix.couplings previous)) previous

def square (matrix : Matrix α) (sweep : Sweep) (device : Device α) : α :=
  Reduction.partialsTotal
    (Launch.blockSums sweep.kernel (device.sources sweep) sweep.geometry sweep.rows
      ⟨Storage.overwrite (device.contents sweep.iterate) 0
        (matrix.couplings (device.contents sweep.previous)),
        device.contents sweep.previous, device.contents sweep.partials⟩)
    sweep.geometry.threadsPerBlock

structure Advanced (matrix : Matrix α) (sweep : Sweep) (before after : Device α) : Prop where
  width : after.width = before.width
  sizes : after.sizes = before.sizes
  iterate : after.contents sweep.iterate = Storage.overwrite (before.contents sweep.iterate) 0
    (advance matrix sweep (before.sources sweep) (before.contents sweep.iterate)
      (before.contents sweep.previous))
  previous : after.contents sweep.previous = Storage.overwrite (before.contents sweep.previous) 0
    (advance matrix sweep (before.sources sweep) (before.contents sweep.iterate)
      (before.contents sweep.previous))
  others : ∀ other, other ∉ [sweep.iterate, sweep.previous, sweep.partials, sweep.residual] →
    after.contents other = before.contents other

def finishSweep [SquareRoot α] (solver : Solver α) (matrix : Matrix α) (sweep : Sweep)
    (launcher : Launcher) : SolveM α μ (α × Launcher) := do
  SolveM.call (matrix.multiply sweep.previous sweep.iterate)
  let launcher ← SolveM.issue launcher sweep
  let squares ← SolveM.call (Device.readScalar sweep.residual)
  let squares ← Collective.allReduceSum solver.communicator squares
  pure (SquareRoot.root squares, launcher)

structure Fitting (matrix : Matrix α) (sweep : Sweep) (device : Device α) : Prop where
  sound : matrix.Sound
  rows : matrix.rows = sweep.rows
  blockSize : matrix.blockSize = sweep.kernel.blockSize
  separate : Device.Separate sweep
  ready : Device.Ready sweep device
  extended : matrix.columns * matrix.blockSize ≤ (device.contents sweep.previous).size

section Sweeping

variable {matrix : Matrix α} {sweep : Sweep} {device middle after : Device α}

omit [Arithmetic α] in
theorem Fitting.of_sizes (fitting : Fitting matrix sweep device)
    (width : after.width = device.width) (sizes : after.sizes = device.sizes) :
    Fitting matrix sweep after where
  sound := fitting.sound
  rows := fitting.rows
  blockSize := fitting.blockSize
  separate := fitting.separate
  ready := fitting.ready.of_sizes width sizes
  extended := Device.size_contents_of_sizes sizes sweep.previous ▸ fitting.extended

omit [Arithmetic α] in
theorem Fitting.iterate_long (fitting : Fitting matrix sweep device) :
    matrix.rows * matrix.blockSize ≤ (device.contents sweep.iterate).size := by
  have long := (Device.fits_of_long_enough fitting.ready.positive fitting.ready.small
    fitting.ready.width fitting.ready.long).1.iterateLong
  rw [fitting.rows, fitting.blockSize]
  exact long

omit [Arithmetic α] in
theorem Fitting.covered (fitting : Fitting matrix sweep device) :
    sweep.kernel.Covered matrix.rows (device.sources sweep) := by
  rw [fitting.rows]
  exact (Device.fits_of_long_enough fitting.ready.positive fitting.ready.small
    fitting.ready.width fitting.ready.long).1.covered

omit [Arithmetic α] in
theorem Fitting.iterate_ne (fitting : Fitting matrix sweep device) :
    sweep.iterate ≠ sweep.previous :=
  fitting.separate.apart.written.1

theorem Fitting.length_advance (fitting : Fitting matrix sweep device) :
    (advance matrix sweep (device.sources sweep) (device.contents sweep.iterate)
      (device.contents sweep.previous)).length = sweep.rows * sweep.kernel.blockSize := by
  obtain ⟨fits, _⟩ := Device.fits_of_long_enough fitting.ready.positive fitting.ready.small
    fitting.ready.width fitting.ready.long
  apply Launch.length_relaxed fits.covered
  · rw [Storage.size_overwrite]
    exact fits.iterateLong
  · exact fits.previousLong

structure Multiplied (matrix : Matrix α) (sweep : Sweep) (before middle : Device α) : Prop where
  width : middle.width = before.width
  sizes : middle.sizes = before.sizes
  iterate : middle.contents sweep.iterate = Storage.overwrite (before.contents sweep.iterate) 0
    (matrix.couplings (before.contents sweep.previous))
  elsewhere : ∀ other, other ≠ sweep.iterate → middle.contents other = before.contents other

theorem Fitting.multiplies (fitting : Fitting matrix sweep device) :
    ∃ middle, matrix.multiply sweep.previous sweep.iterate device = (.ok (), middle) ∧
      Multiplied matrix sweep device middle := by
  obtain ⟨counted, alike, multiplied⟩ :=
    Matrix.multiply_run fitting.sound fitting.extended fitting.iterate_long
  refine ⟨_, multiplied, alike.width, ?_, ?_, fun other apart => ?_⟩
  · rw [Device.sizes_store]
    · simp only [Device.sizes, alike.buffers]
    · rw [alike.contents]
      exact Storage.size_overwrite ..
  · apply Device.contents_store_sized
    rw [alike.contents]
    exact Storage.size_overwrite ..
  · rw [Device.contents_store_other _ (Ne.symm apart), alike.contents]

theorem Multiplied.sources (multiplied : Multiplied matrix sweep device after)
    (fitting : Fitting matrix sweep device) : after.sources sweep = device.sources sweep := by
  have apart := fitting.separate.apart.iterate
  simp only [List.mem_cons, List.not_mem_nil, or_false, not_or] at apart
  simp only [Device.sources, multiplied.elsewhere _ (Ne.symm apart.1),
    multiplied.elsewhere _ (Ne.symm apart.2.1), multiplied.elsewhere _ (Ne.symm apart.2.2)]

theorem Multiplied.workspace (multiplied : Multiplied matrix sweep device after)
    (fitting : Fitting matrix sweep device) : after.workspace sweep =
      ⟨Storage.overwrite (device.contents sweep.iterate) 0
        (matrix.couplings (device.contents sweep.previous)),
        device.contents sweep.previous, device.contents sweep.partials⟩ := by
  have partials := fitting.separate.apart.written.2.1.symm
  simp only [Device.workspace, multiplied.iterate,
    multiplied.elsewhere _ (Ne.symm fitting.iterate_ne), multiplied.elsewhere _ partials]

theorem Multiplied.advanced (multiplied : Multiplied matrix sweep device middle)
    (fitting : Fitting matrix sweep device) (swept : Device.Swept sweep middle after) :
    Advanced matrix sweep device after := by
  have atPrevious := multiplied.elsewhere _ (Ne.symm fitting.iterate_ne)
  have values : Launch.relaxed sweep.kernel (middle.sources sweep) sweep.rows
      (middle.contents sweep.iterate) (middle.contents sweep.previous) =
      advance matrix sweep (device.sources sweep) (device.contents sweep.iterate)
        (device.contents sweep.previous) := by
    rw [multiplied.sources fitting, multiplied.iterate, atPrevious]
    rfl
  -- the new rows cover all that the operator has left in the iterate
  have length : (matrix.couplings (device.contents sweep.previous)).length =
      (advance matrix sweep (device.sources sweep) (device.contents sweep.iterate)
        (device.contents sweep.previous)).length := by
    rw [Matrix.length_couplings, fitting.length_advance, fitting.rows, fitting.blockSize]
  refine ⟨swept.width.trans multiplied.width, swept.sizes.trans multiplied.sizes, ?_, ?_,
    fun other apart => ?_⟩
  · rw [swept.iterate, values, multiplied.iterate, Storage.overwrite_overwrite _ _ length]
  · rw [swept.previous, values, atPrevious]
  · rw [swept.others other apart, multiplied.elsewhere]
    intro here
    exact apart (here ▸ List.mem_cons_self)

theorem Advanced.of_alike {last : Device α}
    (advanced : Advanced matrix sweep device after) (alike : last.Alike after) :
    Advanced matrix sweep device last where
  width := alike.width.trans advanced.width
  sizes := by
    rw [← advanced.sizes]
    simp only [Device.sizes, alike.buffers]
  iterate := (alike.contents _).trans advanced.iterate
  previous := (alike.contents _).trans advanced.previous
  others other apart := (alike.contents _).trans (advanced.others other apart)

theorem read_scalar_run {buffer : Buffer} {value : α}
    (found : (device.contents buffer)[0]? = some value) :
    ∃ last, (Device.readScalar buffer : DeviceM α α) device = (.ok value, last) ∧
      last.Alike device := by
  generalize read : device.count
    (fun counters => { counters with readbacks := counters.readbacks + 1 }) = last
  have same : last.Alike device := by
    subst read
    exact ⟨rfl, rfl⟩
  have shown : (last.contents buffer)[0]?.getD 0 = value := by
    rw [same.contents, found]
    rfl
  refine ⟨last, ?_, same⟩
  rw [← shown]
  unfold Device.readScalar Device.countReadback
  rw [modify_bind, get_bind, read]
  rfl

theorem finish_sweep_issued [SquareRoot α] (solver : Solver α) (scope : SolveScope α μ)
    (fitting : Fitting matrix sweep scope.device) {launcher : Launcher} (kept : Launcher → Prop)
    (issues : ∀ ready : Device α, Device.Ready sweep ready → ∃ next after,
      launcher.issue sweep ready = ((.ok (), next), after) ∧ kept next ∧
        Device.Swept sweep ready after) :
    ∃ next after, solver.finishSweep matrix sweep launcher scope =
        (Collective.allReduceSum solver.communicator (square matrix sweep scope.device)).bind
          (fun squares => .done (.ok (SquareRoot.root squares, next),
            { scope with device := after })) ∧
      kept next ∧ Advanced matrix sweep scope.device after := by
  obtain ⟨middle, product, multiplied⟩ := fitting.multiplies
  obtain ⟨next, launched, ran, holds, swept⟩ :=
    issues middle (fitting.ready.of_sizes multiplied.width multiplied.sizes)
  have total : (launched.contents sweep.residual)[0]? =
      some (square matrix sweep scope.device) := by
    rw [swept.residual, multiplied.sources fitting, multiplied.workspace fitting]
    rfl
  obtain ⟨last, scalar, alike⟩ := read_scalar_run total
  have issued : (SolveM.issue launcher sweep : SolveM α μ Launcher)
      { scope with device := middle } = .done (.ok next, { scope with device := launched }) :=
    SolveM.issue_run ran
  have readBack : (SolveM.call (Device.readScalar sweep.residual) : SolveM α μ α)
      { scope with device := launched } =
      .done (.ok (square matrix sweep scope.device), { scope with device := last }) :=
    SolveM.call_run scalar
  refine ⟨next, last, ?_, holds, (multiplied.advanced fitting swept).of_alike alike⟩
  unfold finishSweep
  rw [meet_of_done (SolveM.call_run product), meet_of_done issued, meet_of_done readBack,
    meet_bind]
  cases solver.communicator with
  | alone => rfl
  | member rank ranks => rfl

theorem finish_sweep_run [SquareRoot α] (solver : Solver α) (scope : SolveScope α μ)
    (fitting : Fitting matrix sweep scope.device) :
    ∃ after, solver.finishSweep matrix sweep .direct scope =
        (Collective.allReduceSum solver.communicator (square matrix sweep scope.device)).bind
          (fun squares => .done (.ok (SquareRoot.root squares, .direct),
            { scope with device := after })) ∧
      Advanced matrix sweep scope.device after := by
  obtain ⟨_, after, ran, rfl, advanced⟩ := finish_sweep_issued solver scope fitting
    (· = .direct) fun ready enough =>
      have ⟨after, issued, swept⟩ := Launcher.direct_issue_run fitting.separate enough
      ⟨.direct, after, issued, rfl, swept⟩
  exact ⟨after, ran, advanced⟩

theorem finish_sweep_serves [SquareRoot α] (solver : Solver α) (scope : SolveScope α μ)
    (fitting : Fitting matrix sweep scope.device) {launcher : Launcher}
    (serves : Launcher.Serves sweep launcher) :
    ∃ next after, solver.finishSweep matrix sweep launcher scope =
        (Collective.allReduceSum solver.communicator (square matrix sweep scope.device)).bind
          (fun squares => .done (.ok (SquareRoot.root squares, next),
            { scope with device := after })) ∧
      Launcher.Serves sweep next ∧ Advanced matrix sweep scope.device after :=
  finish_sweep_issued solver scope fitting (Launcher.Serves sweep) fun _ enough =>
    serves.issue_run fitting.separate enough

theorem sweep_once_eq [SquareRoot α] (solver : Solver α) (launcher : Launcher)
    {scope : SolveScope α μ} (fitting : Fitting matrix sweep scope.device) :
    solver.sweepOnce matrix sweep launcher scope =
      (SolveM.onDevice (matrix.refresh sweep.previous) >>= fun _ =>
        solver.finishSweep matrix sweep launcher) scope := by
  have applied := matrix.apply_off_diagonal_run fitting.iterate_ne fitting.extended
    fitting.iterate_long
  have operator : (SolveM.onDevice (matrix.applyOffDiagonal sweep.previous sweep.iterate) :
      SolveM α μ Unit) scope =
      (SolveM.onDevice (matrix.refresh sweep.previous) >>= fun _ =>
        SolveM.call (matrix.multiply sweep.previous sweep.iterate)) scope := by
    unfold SolveM.call
    rw [← SolveM.on_device_bind]
    unfold SolveM.onDevice
    rw [applied]
  unfold sweepOnce finishSweep
  rw [meet_bind, operator, ← meet_bind, bind_assoc]

end Sweeping
end Solver
end Relaxation

import Relaxation.Proofs.Loop
import Relaxation.Proofs.Setup

/-!
The loop of one rank among others. An iteration is an exchange of boundary values, a
sweep on what came in, and a sum of squares; then the rank's policy decides.
-/

namespace Relaxation

variable {α β μ : Type}

theorem Halo.sync_member {halo : Halo} {rank ranks rows : Nat} {values : Array α}
    (member : halo.communicator = .member rank ranks)
    (long : rows * halo.blockSize ≤ values.size) :
    halo.sync values rows = .exchange halo.neighbors (values.extract 0 (rows * halo.blockSize))
      (values.extract (rows * halo.blockSize) values.size) fun answer =>
        .done (answer.1, values.extract 0 (rows * halo.blockSize) ++ answer.2) := by
  unfold sync
  dsimp only
  rw [if_neg (Nat.not_lt.mpr long), member]
  rfl

theorem Matrix.refresh_member {matrix : Matrix α} {halo : Halo} {rank ranks : Nat}
    (present : matrix.halo = some halo) (member : halo.communicator = .member rank ranks)
    {input : Buffer} {device : Device α}
    (long : matrix.rows * halo.blockSize ≤ (device.contents input).size) :
    matrix.refresh input device = .exchange halo.neighbors
      ((device.contents input).extract 0 (matrix.rows * halo.blockSize))
      ((device.contents input).extract (matrix.rows * halo.blockSize)
        (device.contents input).size) fun answer =>
          (Failure.ofFault answer.1 : Operation α Unit) (device.store input
            ((device.contents input).extract 0 (matrix.rows * halo.blockSize) ++ answer.2)) := by
  have synced := Halo.sync_member member long
  unfold refresh
  rw [present]
  change ((liftM (halo.sync (device.contents input) matrix.rows) :
    Operation α (Except Fault Unit × Array α)) >>= _) device = _
  rw [meet_bind, synced]
  rfl

theorem Matrix.refresh_lone {matrix : Matrix α} {halo : Halo} (present : matrix.halo = some halo)
    (lone : halo.communicator = .alone) {input : Buffer} {device : Device α}
    (long : matrix.rows * halo.blockSize ≤ (device.contents input).size) :
    matrix.refresh input device = .done (.ok (), device.store input
      ((device.contents input).extract 0 (matrix.rows * halo.blockSize) ++
        (device.contents input).extract (matrix.rows * halo.blockSize)
          (device.contents input).size)) := by
  have synced : halo.sync (device.contents input) matrix.rows = .done (.ok (),
      (device.contents input).extract 0 (matrix.rows * halo.blockSize) ++
        (device.contents input).extract (matrix.rows * halo.blockSize)
          (device.contents input).size) := by
    unfold Halo.sync
    dsimp only
    rw [if_neg (Nat.not_lt.mpr long), lone]
    rfl
  unfold refresh
  rw [present]
  change ((liftM (halo.sync (device.contents input) matrix.rows) :
    Operation α (Except Fault Unit × Array α)) >>= _) device = _
  rw [meet_bind, synced]
  rfl

namespace Solver

variable [Arithmetic α] {matrix : Matrix α} {sweep : Sweep} {device : Device α}

def refilled (front : Nat) (sweep : Sweep) (device : Device α) (filled : Array α) : Device α :=
  device.store sweep.previous ((device.contents sweep.previous).extract 0 front ++ filled)

omit [Arithmetic α] in
theorem sources_refilled (fitting : Fitting matrix sweep device) {front : Nat} {filled : Array α} :
    (refilled front sweep device filled).sources sweep = device.sources sweep := by
  have apart := fitting.separate.apart.previous
  simp only [List.mem_cons, List.not_mem_nil, or_false, not_or] at apart
  simp only [Device.sources, refilled, Device.contents_store_other _ apart.2.1,
    Device.contents_store_other _ apart.2.2.1, Device.contents_store_other _ apart.2.2.2]

section Refilled

variable (fitting : Fitting matrix sweep device) {front : Nat} {filled : Array α}
  (within : front ≤ matrix.columns * matrix.blockSize)
  (size : filled.size = (device.contents sweep.previous).size - front)

include fitting within size

omit [Arithmetic α] in
theorem size_refilled : ((device.contents sweep.previous).extract 0 front ++ filled).size =
    (device.contents sweep.previous).size := by
  have extended := fitting.extended
  rw [Array.size_append, Array.size_extract, size]
  omega

omit [Arithmetic α] in
theorem contents_refilled : (refilled front sweep device filled).contents sweep.previous =
    (device.contents sweep.previous).extract 0 front ++ filled :=
  Device.contents_store_sized (size_refilled fitting within size)

omit [Arithmetic α] in
theorem fitting_refilled : Fitting matrix sweep (refilled front sweep device filled) :=
  fitting.of_sizes rfl (Device.sizes_store (size_refilled fitting within size))

end Refilled

omit [Arithmetic α] in
theorem Fitting.front_inside (fitting : Fitting matrix sweep device) :
    matrix.rows * matrix.blockSize ≤ matrix.columns * matrix.blockSize :=
  Nat.mul_le_mul_right matrix.blockSize fitting.sound.covers

abbrev refreshed (matrix : Matrix α) (sweep : Sweep) (device : Device α) (filled : Array α) :
    Device α :=
  refilled (matrix.rows * matrix.blockSize) sweep device filled

theorem Carries.received {sources : Sources α} {x filled : Array α}
    (fitting : Fitting matrix sweep device)
    (size : filled.size = (device.contents sweep.previous).size - matrix.rows * matrix.blockSize)
    (after : Device α) (carries : Carries matrix sweep sources x device)
    (own : x.size = matrix.rows * matrix.blockSize) :
    square matrix sweep (refreshed matrix sweep device filled) =
        (Launch.levels sweep.geometry matrix.rows fun row => (sweep.kernel.rowUpdate sources
          (matrix.couplings (x ++ filled)).toArray (x ++ filled) row).square) ∧
      (next matrix sweep.kernel sources (x ++ filled)).size = matrix.rows * matrix.blockSize ∧
      (Advanced matrix sweep (refreshed matrix sweep device filled) after →
        Carries matrix sweep sources (next matrix sweep.kernel sources (x ++ filled)) after) := by
  have front : (device.contents sweep.previous).extract 0 (matrix.rows * matrix.blockSize) = x :=
    Storage.extract_front own carries.previous
  have fitting' := fitting_refilled fitting fitting.front_inside size
  have holds := contents_refilled fitting fitting.front_inside size
  have same : (refreshed matrix sweep device filled).sources sweep = sources :=
    (sources_refilled fitting).trans carries.sources
  rw [front] at holds
  have long : matrix.columns * matrix.blockSize ≤ (x ++ filled).size := by
    have extended := fitting'.extended
    rwa [holds] at extended
  have seen : ∀ index, index < matrix.columns * matrix.blockSize →
      ((refreshed matrix sweep device filled).contents sweep.previous)[index]? =
        (x ++ filled)[index]? := fun index _ => by rw [holds]
  refine ⟨?_, ?_, fun advanced => ?_⟩
  · rw [square_eq fitting' long seen, same]
  · have covered := fitting'.covered
    rw [same] at covered
    exact size_next fitting.blockSize.symm covered
      (fitting.front_inside.trans long)
  · have carries' := advanced.carries fitting' long seen
    rwa [same] at carries'

variable [SquareRoot α] {solver : Solver α} {rank ranks : Nat} {halo : Halo}

/-- An iteration of a member of a group: an exchange, then a sum, and then the end or the
rest of the loop. -/
theorem iterate_member (policy : Policy α μ) (origin : ScratchOrigin) (remaining : Nat)
    (progress : Progress α) (history : Array α) (scope : SolveScope α μ)
    (ending : Except (Failure α) (Outcome α) × SolveScope α μ → Collective α β)
    (member : solver.communicator = .member rank ranks)
    (present : matrix.halo = some halo) (same : halo.communicator = .member rank ranks)
    (blockSize : halo.blockSize = matrix.blockSize) (fitting : Fitting matrix sweep scope.device) :
    ∃ exchanged, (solver.iterate matrix policy sweep origin (remaining + 1) .direct progress history
        scope).bind ending = .exchange halo.neighbors
          ((scope.device.contents sweep.previous).extract 0 (matrix.rows * matrix.blockSize))
          ((scope.device.contents sweep.previous).extract (matrix.rows * matrix.blockSize)
            (scope.device.contents sweep.previous).size) exchanged ∧
      ∀ filled : Array α,
        filled.size = (scope.device.contents sweep.previous).size - matrix.rows * matrix.blockSize →
        ∃ summed after, exchanged (.ok (), filled) =
            .sum (square matrix sweep (refreshed matrix sweep scope.device filled)) summed ∧
          Advanced matrix sweep (refreshed matrix sweep scope.device filled) after ∧
          ∀ total, ∃ last : SolveScope α μ, last.device.Alike after ∧
            last.memory = (verdict policy progress (SquareRoot.root total) scope.memory).2 ∧
            summed total =
              if (verdict policy progress (SquareRoot.root total) scope.memory).1.terminal then
                ending (.ok (stopped origin progress history (SquareRoot.root total)
                  (verdict policy progress (SquareRoot.root total) scope.memory).1), last)
              else (solver.iterate matrix policy sweep origin remaining .direct
                (observed progress (SquareRoot.root total)) (history.push (SquareRoot.root total))
                last).bind ending := by
  have long : matrix.rows * halo.blockSize ≤ (scope.device.contents sweep.previous).size := by
    rw [blockSize]
    exact fitting.front_inside.trans fitting.extended
  have met := Matrix.refresh_member present same long
  rw [blockSize] at met
  rw [iterate_succ, meet_bind, sweep_once_eq solver .direct fitting, meet_bind]
  unfold SolveM.onDevice
  rw [met]
  refine ⟨_, rfl, fun filled size => ?_⟩
  generalize updated : refreshed matrix sweep scope.device filled = device
  have fitting' : Fitting matrix sweep device :=
    updated ▸ fitting_refilled fitting fitting.front_inside size
  obtain ⟨after, ran, advanced⟩ :=
    finish_sweep_run solver { scope with device := device } fitting'
  have swept : (solver.finishSweep matrix sweep .direct : SolveM α μ (α × Launcher))
      { scope with device := device } = .sum (square matrix sweep device) fun total =>
        .done (.ok (SquareRoot.root total, .direct), { scope with device := after }) := by
    rw [ran, member]
    rfl
  refine ⟨fun total =>
    (solver.judge matrix policy sweep origin remaining progress history
      (SquareRoot.root total, .direct) { scope with device := after }).bind ending, after, ?_,
    advanced, fun total => ?_⟩
  · subst updated
    change ((solver.finishSweep matrix sweep .direct ⟨refreshed matrix sweep scope.device filled,
      scope.statistics, scope.memory⟩).bind _).bind ending = _
    rw [swept]
    rfl
  · obtain ⟨last, alike, kept, judged⟩ := solver.judge_run matrix policy sweep origin remaining
      .direct progress history (SquareRoot.root total) { scope with device := after }
    refine ⟨last, alike, kept, ?_⟩
    dsimp only
    rw [judged]
    split <;> rfl

end Solver
end Relaxation

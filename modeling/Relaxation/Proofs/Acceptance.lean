import Relaxation.Proofs.Opening
import Relaxation.Proofs.SplitSolve

/-!
What becomes of a request. If its vectors are long enough and apart, a solve on an assembled
matrix that meets no other rank makes every sweep it begins: the product, the launches and the
sum of squares stay inside their buffers, so that only the policy or the end of the iteration
counter ends the loop. This takes extended vectors that can be stored: if not even a word can hold
their length, a request that is fit faults before anything is written.
-/

namespace Relaxation

variable {α μ : Type}

open Collective

/-- A request that no solve accepts: a vector is too short for the owned values, or two roles
share a buffer. -/
inductive Request.Unfit (request : Request α) (needed : Nat) (device : Device α) : Prop where
  | shortRhs (short : (device.contents request.rhs).size < needed)
  | shortIterate (short : (device.contents request.iterate).size < needed)
  | sameVector (same : request.rhs = request.iterate)
  | auxiliaryIterate (same : request.auxiliary = some request.iterate)
  | auxiliaryRhs (same : request.auxiliary = some request.rhs)

/-- An extended vector has fewer than `2 ^ 63` bytes, as everything that is stored. -/
def Matrix.Storable (matrix : Matrix α) : Prop :=
  matrix.columns * matrix.blockSize * 8 < 2 ^ 63

theorem Matrix.Storable.numbered {matrix : Matrix α} (storable : matrix.Storable) :
    matrix.columns * matrix.blockSize < Word.limit := by
  have bytes : matrix.columns * matrix.blockSize * 8 < 2 ^ 63 := storable
  unfold Word.limit UInt64.size
  omega

namespace Solver

variable {solver : Solver α} {matrix : Matrix α} {request : Request α} {device : Device α}

theorem validate_ok_iff_fit (rows : matrix.rows = solver.rows)
    (blockSize : matrix.blockSize = solver.kernel.blockSize) :
    solver.validate matrix request device = .ok () ↔ ¬request.Unfit solver.owned device := by
  rw [validate_ok_iff]
  constructor
  · rintro ⟨_, rhsLong, iterateLong, different, auxiliary⟩ unfit
    cases unfit with
    | shortRhs short => exact Nat.not_lt.mpr rhsLong short
    | shortIterate short => exact Nat.not_lt.mpr iterateLong short
    | sameVector same => exact different same
    | auxiliaryIterate same => exact (auxiliary _ same).1 rfl
    | auxiliaryRhs same => exact (auxiliary _ same).2 rfl
  · intro fit
    refine ⟨⟨rows, blockSize⟩, Nat.not_lt.mp fun short => fit (.shortRhs short),
      Nat.not_lt.mp fun short => fit (.shortIterate short), fun same => fit (.sameVector same),
      fun buffer given => ⟨?_, ?_⟩⟩
    · rintro rfl
      exact fit (.auxiliaryIterate given)
    · rintro rfl
      exact fit (.auxiliaryRhs given)

/-- How a loop ends in which no step fails: with an answer, or with the last number of the
iteration counter, behind as many residuals that the policy lets pass. -/
inductive Completed (policy : Policy α μ) (progress : Progress α) (memory : μ) (limit : Nat) :
    Except (Failure α) (Outcome α) → Prop where
  | answered (outcome : Outcome α) : Completed policy progress memory limit (.ok outcome)
  | uncounted {residuals : List α} (all : residuals.length = limit)
      (passed : GoesOn policy progress memory residuals) :
      Completed policy progress memory limit (.error (.faulted .overflow))

theorem Completed.later {policy : Policy α μ} {progress : Progress α} {memory : μ} {limit : Nat}
    {residual : α} {result : Except (Failure α) (Outcome α)}
    (going : ¬(verdict policy progress residual memory).1.terminal = true)
    (rest : Completed policy (observed progress residual)
      (verdict policy progress residual memory).2 limit result) :
    Completed policy progress memory (limit + 1) result := by
  cases rest with
  | answered outcome => exact .answered outcome
  | @uncounted residuals all passed =>
      have all' : (residual :: residuals).length = limit + 1 := congrArg Nat.succ all
      exact .uncounted all' ⟨Bool.eq_false_iff.mpr going, passed⟩

theorem Completed.not_refused {policy : Policy α μ} {progress : Progress α} {memory : μ}
    {limit : Nat} {result : Except (Failure α) (Outcome α)}
    (completed : Completed policy progress memory limit result) (refusal : Refusal α) :
    result ≠ .error (.refused refusal) := by
  cases completed <;> exact fun refused => nomatch refused

theorem Installed.of_kept {made : Device α} (installed : Installed solver matrix made)
    (communicator : Communicator)
    (kept : ∀ buffer ∈ [solver.diagonal, solver.inverse], device.Holds buffer ∧
      device.contents buffer = made.contents buffer) :
    Installed (solver.withCommunicator communicator) matrix device := by
  have furnished := installed.furnished.of_kept communicator kept
  exact furnished.installed installed.sound installed.rows installed.blockSize

variable [Arithmetic α] [SquareRoot α] {policy : Policy α μ} {sweep : Sweep}
  {origin : ScratchOrigin} {launcher : Launcher} {scope : SolveScope α μ}

theorem lone_sweep_run (solver : Solver α) (lone : matrix.Lone)
    (fitting : Fitting matrix sweep scope.device) (serves : Launcher.Serves sweep launcher) :
    ∃ next after, solver.sweepOnce matrix sweep launcher scope =
        (allReduceSum solver.communicator (square matrix sweep scope.device)).bind
          (fun squares => .done (.ok (SquareRoot.root squares, next),
            { scope with device := after })) ∧
      Launcher.Serves sweep next ∧ Advanced matrix sweep scope.device after := by
  have long : matrix.rows * matrix.blockSize ≤ (scope.device.contents sweep.previous).size :=
    (Nat.mul_le_mul_right _ fitting.sound.covers).trans fitting.extended
  have refreshed : (SolveM.onDevice (matrix.refresh sweep.previous) : SolveM α μ Unit) scope =
      .done (.ok (), scope) := by
    unfold SolveM.onDevice
    rw [Matrix.refresh_of_lone lone long]
    rfl
  rw [sweep_once_eq solver launcher fitting, meet_of_done refreshed]
  exact finish_sweep_serves solver scope fitting serves

theorem iterate_completes (lone : matrix.Lone) (remaining : Nat) (progress : Progress α)
    (history : Array α) (fitting : Fitting matrix sweep scope.device)
    (serves : Launcher.Serves sweep launcher) :
    (solver.iterate matrix policy sweep origin remaining launcher progress history scope).Always
      fun finished => Completed policy progress scope.memory remaining finished.1 := by
  -- the induction is on what the iteration counter can still count
  induction remaining generalizing launcher progress history scope with
  | zero =>
      have passed : GoesOn policy progress scope.memory [] := trivial
      exact .done (.uncounted rfl passed)
  | succ remaining ih =>
      obtain ⟨next, after, ran, serves', advanced⟩ := lone_sweep_run solver lone fitting serves
      have fitting' := fitting.of_sizes advanced.width advanced.sizes
      have swept : (solver.sweepOnce matrix sweep launcher scope).Always fun finished =>
          ∃ total, finished = (.ok (SquareRoot.root total, next), { scope with device := after }) := by
        rw [ran]
        exact (always_anything _).bind fun total _ => .done ⟨total, rfl⟩
      rw [iterate_succ]
      refine always_meet swept (fun _ _ failed => ?_) fun answer last answered => ?_
      · obtain ⟨_, failed⟩ := failed
        cases failed
      · obtain ⟨total, same⟩ := answered
        cases same
        obtain ⟨asked, alike, memory, judged⟩ := solver.judge_run matrix policy sweep origin remaining
          next progress history (SquareRoot.root total) { scope with device := after }
        rw [judged]
        split
        · exact .done (.answered _)
        · rename_i going
          have sizes : asked.device.sizes = after.sizes := by
            simp only [Device.sizes, alike.buffers]
          have completes := ih (observed progress (SquareRoot.root total))
            (history.push (SquareRoot.root total)) (fitting'.of_sizes alike.width sizes) serves'
          rw [memory] at completes
          exact completes.mono fun _ completed => completed.later going

theorem conclude_completes (policy : Policy α μ) (now : Bool) (installed : Installed solver matrix scope.device)
    (lone : matrix.Lone) (lent : Lent solver request scope.device) :
    (solver.conclude matrix request policy now scope).Always fun finished =>
      Completed policy (solver.begins request) scope.memory iterationLimit finished.1 := by
  cases now with
  | true =>
      obtain ⟨_, _, ended⟩ := conclude_at_once solver matrix request policy scope
      rw [ended]
      exact .done (.answered _)
  | false =>
      have relaxes := relax_relaxes policy scope installed.furnished lent installed.rows
        installed.blockSize
      change (solver.relax matrix request policy scope).Always _
      generalize solver.relax matrix request policy scope = program at relaxes ⊢
      cases relaxes with
      | @looped sweep origin entry provided =>
          have fitting : Fitting matrix sweep { scope with device := entry }.device :=
            provided.fitting installed.sound
          exact iterate_completes lone _ _ _ fitting (Launcher.serves_of_mode ..)
      | cramped narrow => exact absurd narrow (Nat.not_lt.mpr installed.sound.covers)

theorem solve_completes (policy : Policy α μ) (scope : SolveScope α μ)
    (installed : Installed solver matrix scope.device) (lone : matrix.Lone)
    (lent : Lent solver request scope.device) :
    (solver.solve matrix request policy scope).Always fun finished =>
      Completed policy (solver.begins request) scope.memory iterationLimit finished.1 := by
  obtain ⟨asked, alike, memory, opened⟩ := solve_opens policy (validate_ok installed lent)
  have grown := Device.Extends.of_alike alike
  have completes (now : Bool) := conclude_completes policy now
    (installed.of_extends grown) lone (lent.of_extends grown)
  rw [memory] at completes
  rw [opened]
  split
  · exact (always_anything _).bind fun _ _ => completes _
  · exact completes false

theorem solve_numbered (policy : Policy α μ) (scope : SolveScope α μ)
    (fits : matrix.columns * solver.kernel.blockSize < Word.limit) :
    solver.solveChecked matrix request policy scope = solver.solve matrix request policy scope := by
  unfold solveChecked
  rw [if_pos fits]

/-- A scratch of a length that is no word comes behind the checks of the request. -/
theorem solve_unnumbered (policy : Policy α μ) (scope : SolveScope α μ)
    (beyond : ¬matrix.columns * solver.kernel.blockSize < Word.limit) :
    solver.solveChecked matrix request policy scope =
      .done (match solver.validate matrix request scope.device with
        | .error refusal => .error (.refused refusal)
        | .ok () => .error (.faulted .overflow), solver.announced scope) := by
  have validated : solver.validate matrix request (solver.announced scope).device =
      solver.validate matrix request scope.device := rfl
  unfold solveChecked
  rw [if_neg beyond]
  change (do
    Failure.ofRefusal (solver.validate matrix request (solver.announced scope).device)
    throw (.faulted .overflow) : SolveM α μ (Outcome α)) (solver.announced scope) = _
  rw [validated]
  cases solver.validate matrix request scope.device <;> rfl

theorem solve_checked_refused (policy : Policy α μ) {scope : SolveScope α μ} {refusal : Refusal α}
    (checked : solver.validate matrix request scope.device = .error refusal) :
    solver.solveChecked matrix request policy scope =
      .done (.error (.refused refusal), solver.announced scope) := by
  by_cases fits : matrix.columns * solver.kernel.blockSize < Word.limit
  · rw [solve_numbered policy scope fits, solve_refused policy checked]
  · rw [solve_unnumbered policy scope fits, checked]

/-- One row of two components, and more ghost rows than words can number the components of. -/
def wideRow : Matrix ℚ :=
  ⟨1, 2 ^ 63, 2, #[1, 0, 0, 1], #[], #[], #[0, 0], none⟩

def wideSolver : Solver ℚ :=
  ⟨"wide", .standard, .block 2, 1, ⟨0⟩, ⟨1⟩, .alone, Statistics.recordSetup {} 0⟩

def wideDevice : Device ℚ :=
  ⟨.narrowest, #[#[1, 0, 0, 1], #[1, 0, 0, 1], #[3, 4], #[0, 0]], {}, #[]⟩

end Solver
end Relaxation

import Relaxation.Proofs.Safety
import Relaxation.Proofs.SolveScript

/-!
A solve that cannot fail. On a matrix that its solver was set up for, and on buffers that
its checks let through, no sweep faults, and the iteration cap stops the loop before its
counter ends; so all that a solve needs is an answer to each of its calls.
-/

namespace Relaxation

variable {α μ : Type}

namespace Matrix

structure SwapsOver (matrix : Matrix α) (halo : Halo) (neighbors : List Neighbor)
    (owned ghost : Array α) : Prop where
  listed : neighbors = halo.neighbors
  split : owned.size = matrix.rows * halo.blockSize
  extended : matrix.columns * matrix.blockSize ≤ owned.size + ghost.size

def Swaps (matrix : Matrix α) (neighbors : List Neighbor) (owned ghost : Array α) : Prop :=
  ∃ halo, matrix.halo = some halo ∧ matrix.SwapsOver halo neighbors owned ghost

def Splits (matrix : Matrix α) : Prop :=
  ∀ halo ∈ matrix.halo, matrix.rows * halo.blockSize ≤ matrix.columns * matrix.blockSize

variable {matrix : Matrix α} {exchanging : Bool}

theorem safe_refresh (exchanges : matrix.Exchanges exchanging) (splits : matrix.Splits)
    {input : Buffer} {device : Device α}
    (long : matrix.columns * matrix.blockSize ≤ (device.contents input).size) :
    (matrix.refresh input device).Safe matrix.Swaps
      (Succeeds fun _ after => after.width = device.width ∧ after.sizes = device.sizes) := by
  cases exchanges with
  | never whole =>
      rw [refresh_alone whole]
      exact .done ⟨(), rfl, rfl, rfl⟩
  | @always halo rank ranks present member =>
      have fits := (splits halo present).trans long
      have split : ((device.contents input).extract 0 (matrix.rows * halo.blockSize)).size =
          matrix.rows * halo.blockSize := by
        rw [Array.size_extract]
        omega
      have rest : ((device.contents input).extract (matrix.rows * halo.blockSize)
          (device.contents input).size).size =
            (device.contents input).size - matrix.rows * halo.blockSize := by
        rw [Array.size_extract]
        omega
      rw [refresh_member present member fits]
      refine .exchange ⟨halo, present, rfl, split, by omega⟩ fun filled size => ?_
      refine .done ⟨(), rfl, rfl, Device.sizes_store ?_⟩
      dsimp only at size ⊢
      rw [Array.size_append]
      omega

end Matrix

namespace Solver

variable [Arithmetic α] [SquareRoot α] {solver : Solver α} {matrix : Matrix α} {exchanging : Bool}
  {rank ranks : Nat} {window : Option UInt32} {request : Request α}

theorem safe_sweep (member : solver.communicator = .member rank ranks)
    (exchanges : matrix.Exchanges exchanging) (splits : matrix.Splits) {sweep : Sweep}
    {scope : SolveScope α μ} (fitting : Fitting matrix sweep scope.device) :
    (solver.sweepOnce matrix sweep .direct scope).Safe matrix.Swaps
      (Succeeds fun answer after => answer.2 = .direct ∧ Fitting matrix sweep after.device) := by
  have refreshes : ((SolveM.onDevice (matrix.refresh sweep.previous) : SolveM α μ Unit) scope).Safe
      matrix.Swaps (Succeeds fun _ after => Fitting matrix sweep after.device) := by
    refine (Matrix.safe_refresh exchanges splits fitting.extended).bind ?_
    rintro ⟨_, device⟩ ⟨_, rfl, width, sizes⟩
    exact .done ⟨(), rfl, fitting.of_sizes width sizes⟩
  rw [sweep_once_eq solver .direct fitting]
  refine safe_meet refreshes fun _ refreshed fitting => ?_
  obtain ⟨after, ran, advanced⟩ := finish_sweep_run solver refreshed fitting
  rw [ran, member]
  exact .sum fun total => .done ⟨_, rfl, rfl, fitting.of_sizes advanced.width advanced.sizes⟩

omit [SquareRoot α] in
theorem verdict_capped {progress : Progress α}
    (last : progress.maxIterations.toNat ≤ progress.iterations + 1) (residual : α)
    (memory : Option (Best α)) :
    (verdict (.residual window) progress residual memory).1.terminal = true := by
  have capped : (observed progress residual).maxIterations.toNat ≤ progress.iterations + 1 := last
  unfold verdict Policy.residual
  simp only [if_pos capped]
  split <;> rfl

theorem safe_iterate (member : solver.communicator = .member rank ranks)
    (exchanges : matrix.Exchanges exchanging) (splits : matrix.Splits) {sweep : Sweep}
    (origin : ScratchOrigin) (remaining : Nat) (progress : Progress α) (history : Array α)
    (scope : SolveScope α (Option (Best α))) (fitting : Fitting matrix sweep scope.device)
    (capped : progress.maxIterations.toNat ≤ progress.iterations + remaining)
    (more : 0 < remaining) :
    (solver.iterate matrix (.residual window) sweep origin remaining .direct progress history
      scope).Safe matrix.Swaps (Succeeds fun _ _ => True) := by
  -- the induction is on what the iteration counter can still count; the cap is within it
  induction remaining generalizing progress history scope with
  | zero => exact absurd more (Nat.lt_irrefl 0)
  | succ remaining ih =>
      rw [iterate_succ]
      refine safe_meet (safe_sweep member exchanges splits fitting) ?_
      rintro ⟨residual, _⟩ swept ⟨rfl, fitting'⟩
      obtain ⟨after, alike, _, judged⟩ := solver.judge_run matrix (.residual window) sweep origin
        remaining .direct progress history residual swept
      rw [judged]
      by_cases stops : (verdict (.residual window) progress residual swept.memory).1.terminal = true
      · rw [if_pos stops]
        exact .done ⟨_, rfl, trivial⟩
      · rw [if_neg stops]
        have early := mt (verdict_capped · residual swept.memory) stops
        apply ih (observed progress residual)
        · exact fitting'.of_sizes alike.width (by simp only [Device.sizes, alike.buffers])
        · change progress.maxIterations.toNat ≤ progress.iterations + 1 + remaining
          omega
        · omega

theorem safe_relax (member : solver.communicator = .member rank ranks)
    (exchanges : matrix.Exchanges exchanging) (splits : matrix.Splits)
    (direct : solver.config.launch = .direct) (scope : SolveScope α (Option (Best α)))
    (installed : Installed solver matrix scope.device) (lent : Lent solver request scope.device) :
    (solver.relax matrix request (.residual window) scope).Safe matrix.Swaps
      (Succeeds fun _ _ => True) := by
  obtain ⟨sweep, origin, after, ran, begun⟩ := relax_run (.residual window) scope installed lent
  have small : solver.config.maxIterations.toNat ≤ iterationLimit :=
    Nat.le_pred_of_lt solver.config.maxIterations.toNat_lt
  rw [ran, direct]
  refine safe_iterate member exchanges splits origin iterationLimit _ #[] _ begun.fitting ?_
    (by decide)
  change solver.config.maxIterations.toNat ≤ 0 + iterationLimit
  omega

theorem safe_solve_direct (member : solver.communicator = .member rank ranks)
    (exchanges : matrix.Exchanges exchanging) (splits : matrix.Splits)
    (direct : solver.config.launch = .direct) (scope : SolveScope α (Option (Best α)))
    (installed : Installed solver matrix scope.device) (lent : Lent solver request scope.device) :
    (solver.solve matrix request (.residual window) scope).Safe matrix.Swaps
      (Succeeds fun _ _ => True) := by
  obtain ⟨device, alike, checked⟩ := solve_checked (.residual window) scope installed lent
  have installed' := installed.of_extends (.of_alike alike)
  have lent' := lent.of_extends (.of_alike alike)
  have asks : ((solver.endsAtOnce request : SolveM α (Option (Best α)) Bool)
      { scope with device := device }).Safe matrix.Swaps (Succeeds fun _ after =>
        Installed solver matrix after.device ∧ Lent solver request after.device) := by
    obtain ⟨last, alike', asked⟩ := @ends_at_once_run α (Option (Best α)) _ solver _ request
      { scope with device := device } lent'.rhsLong
    have ready : Installed solver matrix last ∧ Lent solver request last :=
      ⟨installed'.of_extends (.of_alike alike'), lent'.of_extends (.of_alike alike')⟩
    rw [asked, member]
    split
    · exact .sum fun total => .done ⟨_, rfl, ready⟩
    · exact .done ⟨_, rfl, ready⟩
  rw [checked]
  refine safe_meet asks ?_
  rintro atOnce after ⟨installed, lent⟩
  cases atOnce with
  | true =>
      obtain ⟨_, _, ended⟩ := conclude_at_once solver matrix request (.residual window) after
      rw [ended]
      exact .done ⟨_, rfl, trivial⟩
  | false => exact safe_relax member exchanges splits direct after installed lent

theorem safe_solve (window : Option UInt32) (member : solver.communicator = .member rank ranks)
    (exchanges : matrix.Exchanges exchanging) (splits : matrix.Splits)
    (scope : SolveScope α (Option (Best α))) (installed : Installed solver matrix scope.device)
    (lent : Lent solver request scope.device) :
    (solver.solve matrix request (.residual window) scope).Safe matrix.Swaps
      (Succeeds fun _ _ => True) := by
  have joined : (solver.withLaunch .direct).communicator = .member rank ranks := member
  have direct : ((solver.withLaunch .direct).solve matrix request (.residual window) scope).Safe
      matrix.Swaps (Succeeds fun _ _ => True) :=
    safe_solve_direct joined exchanges splits rfl scope (installed.with_launch .direct)
      (lent.with_launch .direct)
  have unchanged : solver.withLaunch solver.config.launch = solver := rfl
  have same := solver.seen_solve matrix request (.residual window) scope solver.config.launch
  rw [unchanged] at same
  refine direct.of_related (Collective.related_of_map_eq same) ?_
  rintro result other alike ⟨outcome, ended, _⟩
  exact ⟨outcome, (congrArg Prod.fst alike).trans ended, trivial⟩

end Solver
end Relaxation

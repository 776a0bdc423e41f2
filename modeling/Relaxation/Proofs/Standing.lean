import Relaxation.Proofs.Process

/-!
A process between two iterations. Where it stands is what its rows hold and how often its
policy has been asked; which device it runs on and what it reports does not matter.
-/

namespace Relaxation

variable {α μ : Type} [Arithmetic α]

/-- What one process has of a solve: its rows, and what its launches read and how they are
laid out. -/
structure Share (α : Type) where
  matrix : Matrix α
  kernel : Kernel
  geometry : Geometry
  sources : Sources α
  communicator : Communicator

namespace Share

def ofInverse (matrix : Matrix α) (inverse : InverseDiagonal α) (rhs : Array α)
    (width : BlockWidth) (communicator : Communicator) : Share α where
  matrix := matrix
  kernel := .ofInverse inverse
  geometry := .cover matrix.rows width.threads
  sources := ⟨matrix.diagonal, inverse.values, rhs⟩
  communicator := communicator

def next (share : Share α) (x : Array α) : Array α :=
  Solver.next share.matrix share.kernel share.sources x

def square (share : Share α) (x : Array α) : α :=
  Launch.levels share.geometry share.matrix.rows fun row =>
    (share.kernel.rowUpdate share.sources (share.matrix.couplings x).toArray x row).square

end Share

variable [SquareRoot α]

/-- The rest of a program after `t` iterations, with owned values `x`, when its policy will
be asked `left` more times. -/
inductive Standing (μ : Type) (share : Share α) (residuals : Nat → α) (x : Array α) (t left : Nat) :
    Collective α (Except (Failure α) (Outcome α × Array α)) → Prop where
  | mk (solver : Solver α) (policy : Policy α μ) (sweep : Sweep) (origin : ScratchOrigin)
      (progress : Progress α) (history : Array α) (scope : SolveScope α μ)
      (communicator : solver.communicator = share.communicator) (kernel : sweep.kernel = share.kernel)
      (geometry : sweep.geometry = share.geometry) (counted : progress.iterations = t)
      (stops : Solver.StopsIn policy residuals left progress scope.memory)
      (carries : Solver.Carries share.matrix sweep share.sources x scope.device) :
      Standing μ share residuals x t left
        ((solver.iterate share.matrix policy sweep origin (Solver.iterationLimit - t) .direct progress
          history scope).bind
            (Process.ending sweep.iterate (share.matrix.rows * share.matrix.blockSize)))

namespace Standing

theorem of_program {process : Process α μ} {communicator : Communicator} {matrix : Matrix α}
    {inverse : InverseDiagonal α} {rhs start : Array α} (sound : matrix.Sound)
    (small : matrix.blockSize ≤ maxBlockSize)
    (factored : InverseDiagonal.factorize matrix.diagonal matrix.blockSize = .ok inverse)
    (shaped : inverse.Shaped matrix) (some : 0 < matrix.rows)
    (rhsSize : rhs.size = matrix.rows * matrix.blockSize)
    (startSize : start.size = matrix.rows * matrix.blockSize)
    (positive : Arithmetic.le process.norm Solver.zeroNorm = false) {residuals : Nat → α} {k : Nat}
    (stops : Solver.StopsIn process.policy residuals k process.progress process.memory) :
    Standing μ (.ofInverse matrix inverse rhs process.width communicator) residuals start 0 k
      (process.program communicator matrix rhs start) := by
  obtain ⟨solver, sweep, origin, scope, ran, shared, kernel, geometry, memory, carries⟩ :=
    process.program_eq communicator sound small factored shaped some rhsSize startSize positive
  rw [ran]
  exact .mk solver process.policy sweep origin process.progress #[] scope shared kernel geometry rfl
    (memory.symm ▸ stops) carries

variable {share : Share α} {residuals : Nat → α} {x : Array α} {t left : Nat}
  {program : Collective α (Except (Failure α) (Outcome α × Array α))}

theorem ends_alone (alone : share.communicator = .alone) (whole : share.matrix.halo = none)
    (square : share.matrix.columns = share.matrix.rows) {values : Nat → Array α}
    (sizes : ∀ t, (values t).size = share.matrix.rows * share.matrix.blockSize)
    (steps : ∀ t, values (t + 1) = share.next (values t))
    (shown : ∀ t, SquareRoot.root (share.square (values t)) = residuals (t + 1))
    (limit : t + left ≤ Solver.iterationLimit)
    (standing : Standing μ share residuals (values t) t left program) :
    ∃ outcome : Outcome α, outcome.iterations = t + left ∧
      program = .done (.ok (outcome, values (t + left))) := by
  obtain ⟨solver, policy, sweep, origin, progress, history, scope, communicator, kernel, geometry,
    rfl, stops, carries⟩ := standing
  have seen : ∀ t device, Solver.Carries share.matrix sweep share.sources (values t) device →
      SquareRoot.root (Solver.square share.matrix sweep device) = residuals (t + 1) := by
    intro t device carried
    have here := Solver.square_eq carried.fitting (by rw [square, sizes t])
      (by rw [square]; exact carried.previous)
    rw [here, carried.sources, kernel, geometry]
    exact shown t
  obtain ⟨outcome, last, ran, count, held⟩ := Solver.iterate_alone_stops
    (communicator.trans alone) whole square origin (Solver.iterationLimit - progress.iterations)
    history scope sizes (fun t => by rw [kernel]; exact steps t) seen stops (by omega) carries
  obtain ⟨long, read⟩ := held.read (sizes _)
  refine ⟨outcome, count, ?_⟩
  rw [ran]
  change Process.ending sweep.iterate _ (.ok outcome, last) = _
  rw [Process.ending_ok long, read]

/-- Among others, an iteration is an exchange and a sum. Whatever the neighbors send and the
sum is, the process then stands at the next values, or has ended with them. -/
theorem exchanges {halo : Halo} {rank ranks : Nat} (member : share.communicator = .member rank ranks)
    (present : share.matrix.halo = some halo) (same : halo.communicator = .member rank ranks)
    (blockSize : halo.blockSize = share.matrix.blockSize)
    (size : x.size = share.matrix.rows * share.matrix.blockSize)
    (limit : t + left < Solver.iterationLimit)
    (standing : Standing μ share residuals x t (left + 1) program) :
    ∃ ghost exchanged, program = .exchange halo.neighbors x ghost exchanged ∧
      share.matrix.columns * share.matrix.blockSize ≤ x.size + ghost.size ∧
      ∀ filled, filled.size = ghost.size →
        ∃ summed, exchanged (.ok (), filled) = .sum (share.square (x ++ filled)) summed ∧
          ∀ total, SquareRoot.root total = residuals (t + 1) →
            (left = 0 → ∃ outcome : Outcome α, outcome.iterations = t + 1 ∧
              summed total = .done (.ok (outcome, share.next (x ++ filled)))) ∧
            (left ≠ 0 → Standing μ share residuals (share.next (x ++ filled)) (t + 1) left
              (summed total)) := by
  obtain ⟨solver, policy, sweep, origin, progress, history, scope, communicator, kernel, geometry,
    rfl, stops, carries⟩ := standing
  have fitting := carries.fitting
  have extended := fitting.extended
  have wide := Nat.mul_le_mul_right share.matrix.blockSize fitting.sound.covers
  have front : (scope.device.contents sweep.previous).extract 0
      (share.matrix.rows * share.matrix.blockSize) = x :=
    Storage.extract_front size carries.previous
  have fuel : Solver.iterationLimit - progress.iterations =
      Solver.iterationLimit - (progress.iterations + 1) + 1 := by omega
  obtain ⟨exchanged, ran, behind⟩ := Solver.iterate_member policy origin
    (Solver.iterationLimit - (progress.iterations + 1)) progress history scope
    (Process.ending sweep.iterate (share.matrix.rows * share.matrix.blockSize))
    (communicator.trans member) present same blockSize fitting
  rw [front] at ran
  rw [fuel]
  refine ⟨_, exchanged, ran, ?_, fun filled filledSize => ?_⟩
  · rw [Array.size_extract]
    omega
  have filledSize' : filled.size = (scope.device.contents sweep.previous).size -
      share.matrix.rows * share.matrix.blockSize := by
    rw [filledSize, Array.size_extract]
    omega
  obtain ⟨summed, after, called, advanced, judged⟩ := behind filled filledSize'
  obtain ⟨squared, nextSize, arrives⟩ :=
    Solver.Carries.received fitting filledSize' after carries size
  have carries' := arrives advanced
  rw [kernel] at carries' nextSize
  rw [squared, kernel, geometry] at called
  refine ⟨summed, called, fun total shown => ?_⟩
  obtain ⟨last, alike, kept, shape⟩ := judged total
  rw [shown] at kept shape
  -- the policy is asked about this residual next, and its answer is known
  cases stops with
  | now stopped =>
      obtain ⟨room, read⟩ := (carries'.of_alike alike).read nextSize
      rw [if_pos stopped, Process.ending_ok room, read] at shape
      exact ⟨fun _ => ⟨_, rfl, shape⟩, fun more => absurd rfl more⟩
  | later going rest =>
      rw [if_neg (by simp [going])] at shape
      refine ⟨fun last => ?_, fun _ => ?_⟩
      · subst last
        cases rest
      · rw [shape]
        exact .mk solver policy sweep origin _ _ last communicator kernel geometry rfl (kept ▸ rest)
          (carries'.of_alike alike)

end Standing
end Relaxation

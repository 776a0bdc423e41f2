import Relaxation.Solver

/-!
A solve as a sequence of its parts: the checks, the question whether there is
anything to do, and the loop.
-/

namespace Relaxation.Solver

variable {α μ : Type} [Arithmetic α] [SquareRoot α]

/-- Whether a solve ends before its loop. Only a norm that counts as zero has the
right-hand side looked at. -/
def endsAtOnce (solver : Solver α) (request : Request α) : SolveM α μ Bool :=
  if Arithmetic.le request.norm zeroNorm then do
    pure !(← solver.needsSolving request.rhs)
  else
    pure false

def conclude (solver : Solver α) (matrix : Matrix α) (request : Request α)
    (policy : Policy α μ) (now : Bool) : SolveM α μ (Outcome α) := do
  if now then
    SolveM.recordSolve 0
    if 1 ≤ solver.config.verbosity then SolveM.report .nothingToSolve
    pure nothingToSolve
  else
    solver.relax matrix request policy

def relaxOn (solver : Solver α) (matrix : Matrix α) (request : Request α) (policy : Policy α μ)
    (scratch : Buffer × ScratchOrigin) : SolveM α μ (Outcome α) := do
  SolveM.call (Device.copy request.iterate scratch.1 solver.owned)
  let sweep ← solver.prepareSweep request scratch.1
  solver.iterate matrix policy sweep scratch.2 iterationLimit (.ofMode solver.config.launch)
    (.start solver.name solver.config.verbosity solver.config.maxIterations
      solver.config.precision request.norm)
    #[]

theorem relax_eq (solver : Solver α) (matrix : Matrix α) (request : Request α)
    (policy : Policy α μ) :
    solver.relax matrix request policy =
      scratch request.auxiliary (matrix.columns * solver.kernel.blockSize) >>=
        solver.relaxOn matrix request policy :=
  rfl

theorem solve_eq (solver : Solver α) (matrix : Matrix α) (request : Request α)
    (policy : Policy α μ) :
    solver.solve matrix request policy = (do
      SolveM.report (.solveSpan solver.name solver.kernel.name Device.label)
      let scope ← get
      Failure.ofRefusal (solver.validate matrix request scope.device)
      let now ← solver.endsAtOnce request
      solver.conclude matrix request policy now) := by
  unfold solve endsAtOnce conclude
  by_cases zero : Arithmetic.le request.norm zeroNorm = true
  · simp only [zero, if_true, bind_assoc, pure_bind]
  · simp only [if_neg zero, pure_bind]

end Relaxation.Solver

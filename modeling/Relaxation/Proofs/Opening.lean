import Relaxation.Proofs.Refusal

/-!
How a solve opens. With a norm that counts as zero the ranks add up the squares of their
right-hand sides, and unless the root of the sum exceeds that limit the solve is over before a
sweep. Any other solve goes into its loop, which only the policy ends.
-/

namespace Relaxation

variable {α μ : Type}

open Collective

namespace Solver

/-- The policy lets every residual pass but the last, and rules on that one. -/
structure Decided (policy : Policy α μ) (progress : Progress α) (memory : μ) (earlier : List α)
    (residual : α) (outcome : Outcome α) : Prop where
  passed : GoesOn policy progress memory earlier
  state : outcome.state = (verdict policy (heard policy progress memory earlier).1 residual
    (heard policy progress memory earlier).2).1
  terminal : outcome.state.terminal = true
  history : outcome.history = (earlier ++ [residual]).toArray
  iterations : outcome.iterations = earlier.length + 1
  residual : outcome.residual = residual

section Opening

variable [Arithmetic α] [SquareRoot α]

/-- A program that goes into the loop of a solve: a sweep comes first, and every answer is what
the policy decides behind one sweep or more. -/
structure Loops (solver : Solver α) (matrix : Matrix α) (request : Request α) (policy : Policy α μ)
    (memory : μ) (program : Collective α (Except (Failure α) (Outcome α) × SolveScope α μ)) :
    Prop where
  sweeps : ∃ sweep origin launcher entry, program =
    (solver.sweepOnce matrix sweep launcher >>=
      solver.judge matrix policy sweep origin (iterationLimit - 1) (solver.begins request) #[]) entry
  decided : program.Always fun finished => ∀ outcome, finished.1 = .ok outcome →
    ∃ earlier residual, Decided policy (solver.begins request) memory earlier residual outcome

/-- A program that goes into the loop of a solve, unless a matrix with fewer columns than rows
has left no room in the scratch for the start vector. -/
def Enters (solver : Solver α) (matrix : Matrix α) (request : Request α) (policy : Policy α μ)
    (memory : μ) (program : Collective α (Except (Failure α) (Outcome α) × SolveScope α μ)) :
    Prop :=
  solver.Loops matrix request policy memory program ∨
    (matrix.columns < matrix.rows ∧
      ∃ last, program = .done (.error (.refused (.copyRange solver.owned)), last))

/-- A program that answers without a sweep: the solve has converged after no iterations, and
no buffer is touched. -/
def ExitsAtOnce (before : SolveScope α μ)
    (program : Collective α (Except (Failure α) (Outcome α) × SolveScope α μ)) : Prop :=
  ∃ last, program = .done (.ok nothingToSolve, last) ∧
    ∀ buffer, last.device.contents buffer = before.device.contents buffer

def rhsSquares (solver : Solver α) (request : Request α) (device : Device α) : α :=
  Arithmetic.squares ((device.contents request.rhs).extract 0 solver.owned).toList

variable {solver : Solver α} {matrix : Matrix α} {request : Request α} {policy : Policy α μ}
  {scope : SolveScope α μ}

theorem loop_decided {sweep : Sweep} {origin : ScratchOrigin} {launcher : Launcher}
    {outcome : Outcome α} {last : SolveScope α μ}
    (ends : (solver.loop matrix request policy sweep origin launcher scope).Ends
      (.ok outcome, last)) :
    ∃ earlier residual,
      Decided policy (solver.begins request) scope.memory earlier residual outcome := by
  obtain ⟨earlier, final, reached, _, _, goes, remembered, concludes⟩ :=
    iterate_ends iterationLimit ends
  generalize iterationLimit - earlier.length = room at concludes
  cases concludes with
  | stopped swept alike memory terminal =>
      rename_i residual next after
      rw [← remembered] at terminal ⊢
      refine ⟨earlier, residual, goes, rfl, terminal, ?_, ?_, rfl⟩
      · simp [stopped]
      · exact congrArg (· + 1) ((heard_iterations earlier _ _).trans (Nat.zero_add _))

theorem loop_sweeps (solver : Solver α) (matrix : Matrix α) (request : Request α)
    (policy : Policy α μ) (sweep : Sweep) (origin : ScratchOrigin) (launcher : Launcher) :
    solver.loop matrix request policy sweep origin launcher =
      (solver.sweepOnce matrix sweep launcher >>= solver.judge matrix policy sweep origin
        (iterationLimit - 1) (solver.begins request) #[]) := by
  have counted : iterationLimit = iterationLimit - 1 + 1 := by decide
  unfold loop
  conv_lhs => rw [counted]
  rw [iterate_succ]

theorem Relaxes.enters {program : Collective α (Except (Failure α) (Outcome α) × SolveScope α μ)}
    (relaxes : Relaxes solver matrix request policy scope program) :
    solver.Enters matrix request policy scope.memory program := by
  cases relaxes with
  | looped =>
      refine .inl ⟨⟨_, _, _, _, congrFun (loop_sweeps ..) _⟩, .of_ends ?_⟩
      rintro ⟨result, last⟩ ends outcome rfl
      have decided := loop_decided ends
      exact decided
  | cramped narrow => exact .inr ⟨narrow, _, rfl⟩

theorem solve_opens (policy : Policy α μ) {scope : SolveScope α μ}
    (checked : solver.validate matrix request scope.device = .ok ()) :
    ∃ asked : SolveScope α μ, asked.device.Alike scope.device ∧ asked.memory = scope.memory ∧
      solver.solve matrix request policy scope =
        if Arithmetic.le request.norm zeroNorm then
          (allReduceSum solver.communicator (solver.rhsSquares request scope.device)).bind
            fun total => solver.conclude matrix request policy
              (!(Arithmetic.lt zeroNorm (SquareRoot.root total))) asked
        else solver.conclude matrix request policy false asked := by
  obtain ⟨_, long, _⟩ := validate_ok_iff.mp checked
  obtain ⟨last, alike, asked⟩ :=
    @ends_at_once_run α μ _ solver _ request (solver.announced scope) long
  refine ⟨{ scope with device := last }, ⟨alike.width, alike.buffers⟩, rfl, ?_⟩
  rw [solve_passed policy checked, meet_bind, asked]
  split
  · rw [bind_assoc]
    rfl
  · rfl

theorem conclude_exits (solver : Solver α) (matrix : Matrix α) (request : Request α)
    (policy : Policy α μ) {asked : SolveScope α μ} (alike : asked.device.Alike scope.device) :
    ExitsAtOnce scope (solver.conclude matrix request policy true asked) := by
  obtain ⟨last, same, ended⟩ := conclude_at_once solver matrix request policy asked
  exact ⟨last, ended, fun buffer => (same.contents buffer).trans (alike.contents buffer)⟩

theorem conclude_enters (policy : Policy α μ) {asked : SolveScope α μ}
    (alike : asked.device.Alike scope.device) (furnished : Furnished solver scope.device)
    (lent : Lent solver request scope.device)
    (checked : solver.validate matrix request scope.device = .ok ()) :
    solver.Enters matrix request policy asked.memory
      (solver.conclude matrix request policy false asked) := by
  have grown := Device.Extends.of_alike alike
  obtain ⟨⟨rows, blockSize⟩, _⟩ := validate_ok_iff.mp checked
  exact (relax_relaxes policy asked (furnished.of_extends grown) (lent.of_extends grown) rows
    blockSize).enters

end Opening

variable {solver : Solver Float} {request : Request Float}

def halvedRow : Matrix Float :=
  ⟨1, 1, 1, #[2], #[], #[], #[0, 0], none⟩

def halvedRowSolver : Solver Float :=
  ⟨"row", .standard, .scalar, 1, ⟨0⟩, ⟨1⟩, .alone, Statistics.recordSetup {} 0⟩

def halvedRowDevice (rhs : Float) : Device Float :=
  ⟨.narrowest, #[#[2], #[0.5], #[rhs], #[1]], {}, #[]⟩

def halvedRowRequest : Request Float :=
  ⟨⟨2⟩, ⟨3⟩, 0, none⟩

def halvedRowSolve (rhs : Float) :
    Collective Float (Except (Failure Float) (Outcome Float) × SolveScope Float (Option (Best Float))) :=
  halvedRowSolver.solve halvedRow halvedRowRequest (.residual none) ⟨halvedRowDevice rhs, {}, none⟩

end Solver
end Relaxation

import Relaxation.Device.Launcher
import Relaxation.Device.Operator
import Relaxation.Statistics

/-!
The relaxation solver. Each iteration applies the off-diagonal operator to the
previous iterate, issues the relax and reduce launches, reads the local squared
residual, sums it over the ranks and asks the policy whether to go on.
-/

namespace Relaxation

structure Config (α : Type) where
  maxIterations : UInt32
  /-- Converged when the residual is at most this multiple of the norm. -/
  precision : α
  /-- 0 is silent, 1 reports each solve, 2 and above each iteration. -/
  verbosity : Nat
  launch : LaunchMode
  /-- Stop after this many iterations without a new minimum. -/
  stallWindow : Option UInt32

def Config.standard {α : Type} [Arithmetic α] : Config α where
  maxIterations := 10000
  precision := 1.0e-5
  verbosity := 0
  launch := .direct
  stallWindow := none

inductive ScratchOrigin where
  | borrowed
  | allocated
  deriving DecidableEq, Repr

def ScratchOrigin.text : ScratchOrigin → String
  | .borrowed => "borrowed"
  | .allocated => "allocated"

structure Request (α : Type) where
  rhs : Buffer
  /-- Start vector on entry, last iterate on exit. -/
  iterate : Buffer
  /-- Residual normalization, the same on every rank. -/
  norm : α
  /-- Scratch on loan, used when it is long enough. -/
  auxiliary : Option Buffer

/-- Result of a solve. Not to converge is a state, no failure. -/
structure Outcome (α : Type) where
  state : SolveState
  iterations : Nat
  residual : α
  initialResidual : Option α
  history : Array α
  /-- None when the solve ended before the loop. -/
  scratch : Option ScratchOrigin

structure Solver (α : Type) where
  name : String
  config : Config α
  kernel : Kernel
  rows : Nat
  diagonal : Buffer
  inverse : Buffer
  communicator : Communicator
  statistics : Statistics

structure SolveScope (α μ : Type) where
  device : Device α
  statistics : Statistics
  memory : μ

abbrev SolveM (α μ : Type) := ExceptT (Failure α) (StateT (SolveScope α μ) (Collective α))

namespace SolveM

variable {α μ β : Type}

def onDevice (operation : Operation α β) : SolveM α μ β := fun scope => do
  let (result, device) ← operation scope.device
  pure (result, { scope with device := device })

def call (call : DeviceM α β) : SolveM α μ β :=
  onDevice (Operation.call call)

def report (event : Event α) : SolveM α μ Unit :=
  modify fun scope => { scope with device := scope.device.report event }

def issue [Arithmetic α] (launcher : Launcher) (sweep : Sweep) : SolveM α μ Launcher :=
  fun scope =>
    let ((outcome, launcher), device) := launcher.issue sweep scope.device
    pure (outcome.map fun _ => launcher, { scope with device := device })

def query (policy : Policy α μ) (iteration : Nat) (residual : α) (progress : Progress α) :
    SolveM α μ SolveState :=
  modifyGet fun scope =>
    let (state, memory) := policy.test iteration residual progress scope.memory
    (state, { scope with memory := memory })

def recordSolve (iterations : Nat) : SolveM α μ Unit :=
  modify fun scope => { scope with statistics := scope.statistics.recordSolve iterations 0 }

end SolveM

namespace Solver

variable {α μ : Type} [Arithmetic α]

def checkShape (matrix : Matrix α) (inverse : InverseDiagonal α) :
    Except (Failure α) Unit := do
  Failure.ofRefusal (checkBlockSize matrix.blockSize)
  let inverseRows ← Failure.ofFault inverse.rows
  if inverse.blockSize ≠ matrix.blockSize ∨ inverseRows ≠ matrix.rows then
    throw (.refused
      (.inverseShape inverseRows inverse.blockSize matrix.rows matrix.blockSize))
  if matrix.diagonal.size ≠ matrix.rows * matrix.blockSize * matrix.blockSize then
    throw (.refused (.diagonalShape matrix.diagonal.size matrix.rows matrix.blockSize))
  if matrix.columns < matrix.rows then
    throw (.refused .columnShape)

def setupWithInverse (name : String) (matrix : Matrix α) (config : Config α)
    (inverse : InverseDiagonal α) : DeviceM α (Solver α) := do
  modify fun device => device.report (.setupSpan name)
  checkShape matrix inverse
  let kernel := Kernel.ofInverse inverse
  let diagonal ← Device.upload matrix.diagonal
  let factors ← Device.upload inverse.values
  modify fun device =>
    device.report (.setUp kernel.name matrix.rows matrix.blockSize Device.label)
  pure
    { name, config, kernel, diagonal
      rows := matrix.rows
      inverse := factors
      communicator := .alone
      statistics := Statistics.recordSetup {} 0 }

def setup (name : String) (matrix : Matrix α) (config : Config α) : DeviceM α (Solver α) := do
  Failure.ofRefusal (checkBlockSize matrix.blockSize)
  let inverse ← Failure.ofRefusal (InverseDiagonal.factorize matrix.diagonal matrix.blockSize)
  setupWithInverse name matrix config inverse

def withCommunicator (solver : Solver α) (communicator : Communicator) : Solver α :=
  { solver with communicator := communicator }

def defaultPolicy (solver : Solver α) : Policy α (Option (Best α)) :=
  Policy.residual solver.config.stallWindow

def owned (solver : Solver α) : Nat :=
  solver.rows * solver.kernel.blockSize

def zeroNorm : α := 1.0e-30

def validate (solver : Solver α) (matrix : Matrix α) (request : Request α)
    (device : Device α) : Except (Refusal α) Unit := do
  if matrix.rows ≠ solver.rows ∨ matrix.blockSize ≠ solver.kernel.blockSize then
    throw (.matrixShape matrix.rows matrix.blockSize solver.rows solver.kernel.blockSize)
  let held := (device.contents request.rhs).size
  if held < solver.owned then throw (.vectorTooShort .rhs held solver.owned)
  let held := (device.contents request.iterate).size
  if held < solver.owned then throw (.vectorTooShort .iterate held solver.owned)
  if request.rhs = request.iterate then throw .sameVector
  if request.auxiliary = some request.iterate ∨ request.auxiliary = some request.rhs then
    throw .auxiliaryAliased

variable [SquareRoot α]

def needsSolving (solver : Solver α) (rhs : Buffer) : SolveM α μ Bool := do
  let values ← SolveM.call (Device.download rhs solver.owned)
  let squares ← Collective.allReduceSum solver.communicator (Arithmetic.squares values.toList)
  pure (Arithmetic.lt zeroNorm (SquareRoot.root squares))

def nothingToSolve : Outcome α where
  state := .converged
  iterations := 0
  residual := 0
  initialResidual := none
  history := #[]
  scratch := none

def scratch (auxiliary : Option Buffer) (needed : Nat) : SolveM α μ (Buffer × ScratchOrigin) := do
  match auxiliary with
  | none => pure (← SolveM.call (Device.alloc needed), .allocated)
  | some buffer =>
    let held := ((← get).device.contents buffer).size
    if needed ≤ held then
      pure (buffer, .borrowed)
    else
      SolveM.report (.scratchTooSmall held needed)
      pure (← SolveM.call (Device.alloc needed), .allocated)

def sweepOnce (solver : Solver α) (matrix : Matrix α) (sweep : Sweep) (launcher : Launcher) :
    SolveM α μ (α × Launcher) := do
  SolveM.onDevice (matrix.applyOffDiagonal sweep.previous sweep.iterate)
  let launcher ← SolveM.issue launcher sweep
  let squares ← SolveM.call (Device.readScalar sweep.residual)
  let squares ← Collective.allReduceSum solver.communicator squares
  pure (SquareRoot.root squares, launcher)

def iterationLimit : Nat := UInt32.size - 1

/-- Iterates until the policy stops. `remaining` is what the iteration counter
can still count. -/
def iterate (solver : Solver α) (matrix : Matrix α) (policy : Policy α μ) (sweep : Sweep)
    (origin : ScratchOrigin) :
    Nat → Launcher → Progress α → Array α → SolveM α μ (Outcome α)
  | 0, _, _, _ => throw (.faulted .overflow)
  | remaining + 1, launcher, progress, history => do
    let iteration := progress.iterations + 1
    let (residual, launcher) ← solver.sweepOnce matrix sweep launcher
    let initial := if iteration = 1 then some residual else progress.initialResidual
    let progress := { progress with
      iterations := iteration, residual := some residual, initialResidual := initial }
    let history := history.push residual
    let state ← SolveM.query policy iteration residual progress
    if 2 ≤ solver.config.verbosity then SolveM.report (.swept iteration residual)
    if state.terminal then
      SolveM.recordSolve iteration
      if 1 ≤ solver.config.verbosity then
        SolveM.report (.finished state iteration residual)
      pure
        { state, residual, history
          iterations := iteration
          initialResidual := initial
          scratch := some origin }
    else
      solver.iterate matrix policy sweep origin remaining launcher progress history

def prepareSweep (solver : Solver α) (request : Request α) (previous : Buffer) :
    SolveM α μ Sweep := do
  let geometry := (← get).device.geometry solver.rows
  let partials ← SolveM.call (Device.alloc geometry.blocks)
  let residual ← SolveM.call (Device.alloc 1)
  pure
    { kernel := solver.kernel
      rows := solver.rows
      geometry := geometry
      diagonal := solver.diagonal
      inverse := solver.inverse
      rhs := request.rhs
      iterate := request.iterate
      previous := previous
      partials := partials
      residual := residual }

def relax (solver : Solver α) (matrix : Matrix α) (request : Request α) (policy : Policy α μ) :
    SolveM α μ (Outcome α) := do
  let (previous, origin) ←
    scratch request.auxiliary (matrix.columns * solver.kernel.blockSize)
  SolveM.call (Device.copy request.iterate previous solver.owned)
  let sweep ← solver.prepareSweep request previous
  solver.iterate matrix policy sweep origin iterationLimit (.ofMode solver.config.launch)
    (.start solver.name solver.config.verbosity solver.config.maxIterations
      solver.config.precision request.norm)
    #[]

/-- Relaxes the start vector until the policy reaches a terminal state. A norm
that counts as zero with a right-hand side that does too ends it at once. -/
def solve (solver : Solver α) (matrix : Matrix α) (request : Request α) (policy : Policy α μ) :
    SolveM α μ (Outcome α) := do
  SolveM.report (.solveSpan solver.name solver.kernel.name Device.label)
  Failure.ofRefusal (solver.validate matrix request (← get).device)
  let atOnce ←
    if Arithmetic.le request.norm zeroNorm then
      pure !(← solver.needsSolving request.rhs)
    else
      pure false
  if atOnce then
    SolveM.recordSolve 0
    if 1 ≤ solver.config.verbosity then SolveM.report .nothingToSolve
    pure nothingToSolve
  else
    solver.relax matrix request policy

/-- The same solve, if the length of its scratch is a word. Its request is checked before. -/
def solveChecked (solver : Solver α) (matrix : Matrix α) (request : Request α)
    (policy : Policy α μ) : SolveM α μ (Outcome α) := do
  if matrix.columns * solver.kernel.blockSize < Word.limit then
    solver.solve matrix request policy
  else
    SolveM.report (.solveSpan solver.name solver.kernel.name Device.label)
    Failure.ofRefusal (solver.validate matrix request (← get).device)
    throw (.faulted .overflow)

end Solver
end Relaxation

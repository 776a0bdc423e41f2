import Relaxation.Group
import Relaxation.Model
import Relaxation.Options
import Relaxation.Solver
import Relaxation.Table

/-!
The command: it builds the diffusion problem, solves it from a zero start on the
host device, and writes the solution or the residual history. The stages are
apart so that a caller can time them.
-/

namespace Relaxation.Command

structure Report where
  exitCode : UInt32
  output : Array UInt8 := #[]
  diagnostics : List String := []

/-- A run that ends early, with one line that says why. A fault has no text of
its own and the exit code of an abort. -/
def failed (stage : String) : Failure Float → Report
  | .refused refusal =>
    { exitCode := 1, diagnostics := [stage ++ " error: " ++ refusal.message Decimal.plain] }
  | .faulted _ => { exitCode := 101 }

def during {β : Type} (stage : String) (result : Except (Failure Float) β) : Except Report β :=
  result.mapError (failed stage)

structure Prepared where
  matrix : Matrix Float
  rhs : Array Float
  device : Device Float
  solver : Solver Float

def config (options : Options) : Config Float where
  maxIterations := options.maxIterations
  precision := options.precision
  verbosity := options.verbosity
  launch := if options.graph then .graph else .direct
  stallWindow := options.stallWindow

def model (options : Options) : Except (Failure Float) (Matrix Float × Array Float) := do
  let matrix ← Model.diffusion options.nx options.ny options.blockSize
  let reference := Model.referenceSolution (matrix.rows * matrix.blockSize)
  let rhs ← Failure.ofFault (matrix.product reference)
  pure (matrix, rhs)

/-- There is no adapter for the other device. -/
def openDevice (options : Options) : Except (Failure Float) (Device Float) :=
  if options.cpu then .ok (.create .standard) else .error (.refused .noAdapter)

def prepare (options : Options) : Except Report Prepared := do
  let (matrix, rhs) ← during "Model" (model options)
  let device ← during "GPU device" (openDevice options)
  let (solver, device) := Solver.setup "diffusion" matrix (config options) device
  let solver ← during "Solve" solver
  pure { matrix, rhs, device, solver }

structure Solved where
  outcome : Outcome Float
  solution : Array Float
  statistics : Statistics
  counters : Counters

def solveWith (prepared : Prepared) :
    SolveM Float (Option (Best Float)) (Outcome Float × Array Float) := do
  let rhs ← SolveM.call (Device.upload prepared.rhs)
  let length := prepared.rhs.size
  let iterate ← SolveM.call (Device.upload (Array.replicate length 0))
  let norm := Float.sqrt (Arithmetic.squares prepared.rhs.toList)
  let outcome ← prepared.solver.solveChecked prepared.matrix
    { rhs, iterate, norm, auxiliary := none } prepared.solver.defaultPolicy
  let solution ← SolveM.call (Device.download iterate length)
  pure (outcome, solution)

def solve (prepared : Prepared) : Except Report Solved := do
  let program := solveWith prepared
    { device := prepared.device, statistics := prepared.solver.statistics, memory := none }
  let (result, scope) := program.runAlone
  let (outcome, solution) ← during "Solve" result
  pure { outcome, solution, statistics := scope.statistics, counters := scope.device.counters }

def summary (outcome : Outcome Float) : String :=
  Device.label ++ ": " ++ outcome.state.text ++ " after " ++ toString outcome.iterations ++
    " iterations, residual " ++ Decimal.scientific 3 outcome.residual

/-- The table of statistics. Replays count as dispatches here. -/
def statisticsLines (solved : Solved) (setupTime solveTime : Nat) : List String :=
  { solved.statistics with
    setupTime := solved.statistics.setupTime + setupTime
    solveTime := solved.statistics.solveTime + solveTime
    dispatches := solved.counters.dispatches + solved.counters.replays
    readbacks := solved.counters.readbacks }.table ("jacobi (" ++ Device.label ++ ")")

/-- Writes the result and reports. Statistics come only after a complete table. -/
def finish (options : Options) (solved : Solved) (setupTime solveTime : Nat) (sink : Sink) :
    Report :=
  let table :=
    if options.history then Table.history solved.outcome.history.toList
    else Table.solution solved.solution.toList
  let line := summary solved.outcome
  match Table.write table sink with
  | (.ok (), sink) =>
    { exitCode := 0
      output := sink.taken
      diagnostics := line ::
        if options.statistics then statisticsLines solved setupTime solveTime else [] }
  | (.error refusal, sink) =>
    { exitCode := 1
      output := sink.taken
      diagnostics := [line, "Output error: " ++ Refusal.message Decimal.plain refusal] }

def reportOf : Except Report Report → Report
  | .ok report => report
  | .error report => report

def announce (text : String) (sink : Sink) : Report :=
  { exitCode := 0, output := (sink.writePieces [text]).2.taken }

def run (arguments : List String) (sink : Sink) : Report :=
  match Options.parse arguments with
  | .run options => reportOf do
    let solved ← solve (← prepare options)
    pure (finish options solved 0 0 sink)
  | .version => announce Options.versionText sink
  | .help => announce Options.helpText sink
  | .invalid => { exitCode := 2, diagnostics := [Options.usageText] }

end Relaxation.Command

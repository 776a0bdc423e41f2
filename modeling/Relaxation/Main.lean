import Relaxation.Command

/-!
The program. It reads the clock around the stages of a run, and hands the report
to the two output streams.
-/

namespace Relaxation.Program

def timed {β : Type} (stage : Unit → β) : IO (β × Nat) := do
  let before ← IO.monoNanosNow
  let result ← IO.lazyPure stage
  let after ← IO.monoNanosNow
  pure (result, after - before)

def printLines (lines : List String) : IO Unit := do
  let stream ← IO.getStderr
  for line in lines do
    stream.putStrLn line

def systemText : IO.Error → String
  | .resourceExhausted _ code details
  | .resourceVanished code details
  | .hardwareFault code details
  | .otherError code details => details ++ " (os error " ++ toString code ++ ")"
  | failure => toString failure

def deliver (report : Command.Report) : IO UInt32 := do
  let (first, later) := report.diagnostics.splitAt 1
  printLines first
  let stream ← IO.getStdout
  let written ← (do stream.write ⟨report.output⟩; stream.flush).toBaseIO
  match written with
  | .ok () =>
    printLines later
    pure report.exitCode
  | .error failure =>
    let refusal : Refusal Float := .storage (systemText failure)
    printLines ["Output error: " ++ refusal.message Decimal.plain]
    pure 1

def announce (report : Command.Report) : IO UInt32 := do
  printLines report.diagnostics
  let stream ← IO.getStdout
  let _ ← (do stream.write ⟨report.output⟩; stream.flush).toBaseIO
  pure report.exitCode

def solveTimed (options : Options) : IO Command.Report := do
  let (prepared, setupTime) ← timed fun _ => Command.prepare options
  match prepared with
  | .error report => pure report
  | .ok prepared =>
    let (solved, solveTime) ← timed fun _ => Command.solve prepared
    match solved with
    | .error report => pure report
    | .ok solved => pure (Command.finish options solved setupTime solveTime .unlimited)

def start (arguments : List String) : IO UInt32 := do
  match Options.parse arguments with
  | .run options => deliver (← solveTimed options)
  | _ => announce (Command.run arguments .unlimited)

end Relaxation.Program

def main (arguments : List String) : IO UInt32 :=
  Relaxation.Program.start arguments

import Relaxation.Decimal.Text

/-!
Counters and times over the setups and solves of one solver.
-/

namespace Relaxation

/-- Times are in nanoseconds. -/
structure Statistics where
  setups : Nat := 0
  solves : Nat := 0
  lastIterations : Nat := 0
  minIterations : Nat := 0
  maxIterations : Nat := 0
  totalIterations : Nat := 0
  setupTime : Nat := 0
  solveTime : Nat := 0
  /-- Device counters, read from the device by the caller. -/
  dispatches : Nat := 0
  readbacks : Nat := 0
  deriving DecidableEq, Repr

namespace Statistics

def recordSetup (statistics : Statistics) (elapsed : Nat) : Statistics :=
  { statistics with
    setups := statistics.setups + 1
    setupTime := statistics.setupTime + elapsed }

def recordSolve (statistics : Statistics) (iterations elapsed : Nat) : Statistics :=
  { statistics with
    solves := statistics.solves + 1
    lastIterations := iterations
    minIterations :=
      if statistics.solves = 0 then iterations else min statistics.minIterations iterations
    maxIterations :=
      if statistics.solves = 0 then iterations else max statistics.maxIterations iterations
    totalIterations := statistics.totalIterations + iterations
    solveTime := statistics.solveTime + elapsed }

def meanIterations (statistics : Statistics) : Float :=
  if statistics.solves = 0 then 0.0
  else Float.ofNat statistics.totalIterations / Float.ofNat statistics.solves

/-- Seconds of a time: whole seconds and the rest are converted apart. -/
def seconds (nanoseconds : Nat) : Float :=
  Float.ofNat (nanoseconds / 1000000000) + Float.ofNat (nanoseconds % 1000000000) / 1.0e9

def secondsText (nanoseconds : Nat) : String :=
  Decimal.padLeft 8 (Decimal.fixed 3 (seconds nanoseconds)) ++ "s"

def table (statistics : Statistics) (name : String) : List String :=
  ["",
    "=== Linear solver stats: " ++ name ++ " ===",
    "  Setups:                 " ++ toString statistics.setups,
    "  Setup time:             " ++ secondsText statistics.setupTime,
    "  Solves:                 " ++ toString statistics.solves] ++
  (if 0 < statistics.solves then
    ["  Iterations:             last=" ++ toString statistics.lastIterations ++
      "  min=" ++ toString statistics.minIterations ++
      "  max=" ++ toString statistics.maxIterations ++
      "  mean=" ++ Decimal.fixed 1 statistics.meanIterations]
  else []) ++
  ["  Solve time:             " ++ secondsText statistics.solveTime,
    "  ─────────────────────────────────",
    "  Dispatches:             " ++ toString statistics.dispatches,
    "  Readbacks:              " ++ toString statistics.readbacks]

end Statistics
end Relaxation

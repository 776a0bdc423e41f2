import Relaxation.Convergence

/-!
What setup, solve and capture report while they run, as spans that open and
events that happen.
-/

namespace Relaxation

inductive Field (α : Type) where
  | text (value : String)
  | count (value : Nat)
  | number (value : α)
  deriving Repr

inductive Event (α : Type) where
  | setupSpan (name : String)
  | solveSpan (name kernel device : String)
  | setUp (kernel : String) (rows blockSize : Nat) (device : String)
  | scratchTooSmall (held needed : Nat)
  | capturing (device : String)
  | swept (iteration : Nat) (residual : α)
  | finished (state : SolveState) (iterations : Nat) (residual : α)
  | nothingToSolve
  deriving Repr

namespace Event

variable {α : Type}

def heading : Event α → String
  | .setupSpan _ => "jacobi_setup"
  | .solveSpan _ _ _ => "jacobi_solve"
  | .setUp _ _ _ _ | .scratchTooSmall _ _ | .capturing _ | .swept _ _ => "DEBUG"
  | .finished _ _ _ | .nothingToSolve => "INFO"

def fields : Event α → List (String × Field α)
  | .setupSpan name => [("name", .text name)]
  | .solveSpan name kernel device =>
    [("name", .text name), ("kernel", .text kernel), ("device", .text device)]
  | .setUp kernel rows blockSize device =>
    [("message", .text "relaxation setup"), ("kernel", .text kernel), ("n_rows", .count rows),
      ("block_size", .count blockSize), ("device", .text device)]
  | .scratchTooSmall held needed =>
    [("message", .text "auxiliary buffer too small, allocating scratch"),
      ("aux_len", .count held), ("needed", .count needed)]
  | .capturing device =>
    [("message", .text "capturing relaxation graph"), ("device", .text device)]
  | .swept iteration residual =>
    [("message", .text "relaxation sweep"), ("iteration", .count iteration),
      ("residual", .number residual)]
  | .finished state iterations residual =>
    [("message", .text "relaxation finished"), ("state", .text state.text),
      ("iterations", .count iterations), ("residual", .number residual)]
  | .nothingToSolve => [("message", .text "zero right-hand side, nothing to solve")]

end Event
end Relaxation

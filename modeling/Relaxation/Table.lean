import Relaxation.Decimal.Text
import Relaxation.Fault
import Relaxation.Sink

/-!
Results as comma-separated tables: a header, then one line per value.
-/

namespace Relaxation.Table

def line (index : Nat) (value : Float) : List String :=
  [toString index, ",", Decimal.plain value, "\n"]

def lines (first : Nat) (values : List Float) : List String :=
  (values.zipIdx first).flatMap fun (value, index) => line index value

def history (values : List Float) : List String :=
  "iteration,residual\n" :: lines 1 values

def solution (values : List Float) : List String :=
  "index,value\n" :: lines 0 values

def write {α : Type} (pieces : List String) (sink : Sink) : Except (Refusal α) Unit × Sink :=
  let (outcome, sink) := sink.writePieces pieces
  (outcome.mapError .storage, sink)

end Relaxation.Table

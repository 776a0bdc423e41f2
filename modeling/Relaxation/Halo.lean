import Relaxation.Collective
import Relaxation.Word

/-!
The halo of a block-row distributed vector. Neighbors are given in block rows
and kept per component, so that one exchange moves whole blocks.
-/

namespace Relaxation

structure Halo where
  communicator : Communicator
  neighbors : List Neighbor
  blockSize : Nat
  /-- Ghost block rows the neighbors fill. -/
  ghostRows : Nat
  deriving DecidableEq, Repr

def components (blockSize row : Nat) : List Nat :=
  (List.range blockSize).map fun component => row * blockSize + component

def Neighbor.expand (neighbor : Neighbor) (blockSize : Nat) : Neighbor where
  rank := neighbor.rank
  sent := neighbor.sent.flatMap (components blockSize)
  start := neighbor.start * blockSize
  count := neighbor.count * blockSize

def componentsChecked (blockSize row : Nat) : Except Fault (List Nat) :=
  (List.range blockSize).mapM fun component => do
    Word.add (← Word.mul row blockSize) component

namespace Neighbor

def stopChecked (neighbor : Neighbor) : Except Fault Nat :=
  Word.add neighbor.start neighbor.count

def expandChecked (neighbor : Neighbor) (blockSize : Nat) : Except Fault Neighbor := do
  let sent ← neighbor.sent.mapM (componentsChecked blockSize)
  let start ← Word.mul neighbor.start blockSize
  let count ← Word.mul neighbor.count blockSize
  pure { rank := neighbor.rank, sent := sent.flatten, start, count }

end Neighbor

namespace Halo

variable {α : Type}

def ofBlockRows (communicator : Communicator) (neighbors : List Neighbor) (blockSize : Nat) :
    Halo where
  communicator := communicator
  neighbors := neighbors.map fun neighbor => neighbor.expand blockSize
  blockSize := blockSize
  ghostRows := (neighbors.map Neighbor.stop).foldl max 0

/-- The same halo, if no row or range leaves the words on the way. -/
def ofBlockRowsChecked (communicator : Communicator) (neighbors : List Neighbor)
    (blockSize : Nat) : Except Fault Halo := do
  let stops ← neighbors.mapM Neighbor.stopChecked
  let expanded ← neighbors.mapM fun neighbor => neighbor.expandChecked blockSize
  pure { communicator, neighbors := expanded, blockSize, ghostRows := stops.foldl max 0 }

def maxSentRow (halo : Halo) : Option Nat :=
  (halo.neighbors.flatMap Neighbor.sent).max?.map (· / halo.blockSize)

def sync (halo : Halo) (values : Array α) (ownedRows : Nat) :
    Collective α (Exchanged α) := do
  let split := ownedRows * halo.blockSize
  if values.size < split then
    pure (.error .outOfRange, values)
  else
    let owned := values.extract 0 split
    let (outcome, ghost) ← Collective.haloExchange halo.communicator halo.neighbors owned
      (values.extract split values.size)
    pure (outcome, owned ++ ghost)

def bracketed (items : List String) : String :=
  "[" ++ ", ".intercalate items ++ "]"

def describe (halo : Halo) : String :=
  let neighbor (neighbor : Neighbor) : String :=
    "HaloNeighbor \x7b rank: " ++ toString neighbor.rank ++
      ", send_indices: " ++ bracketed (neighbor.sent.map toString) ++
      ", recv_start: " ++ toString neighbor.start ++
      ", recv_count: " ++ toString neighbor.count ++ " \x7d"
  "Halo \x7b rank: " ++ toString halo.communicator.rank ++
    ", neighbors: " ++ bracketed (halo.neighbors.map neighbor) ++
    ", block_size: " ++ toString halo.blockSize ++ " \x7d"

end Halo
end Relaxation

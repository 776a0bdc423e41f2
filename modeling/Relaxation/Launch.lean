import Relaxation.Kernel
import Relaxation.Reduction

/-!
One launch of the relaxation kernel: thread blocks update disjoint runs of rows
and leave one partial sum each. A thread block reads nothing that another one
writes, so their order does not matter.
-/

namespace Relaxation

structure Geometry where
  threadsPerBlock : Nat
  blocks : Nat
  deriving DecidableEq, Repr

namespace Geometry

/-- Enough blocks for every row, and at least one, so that the second reduction
has a partial to read. -/
def cover (rows threadsPerBlock : Nat) : Geometry :=
  ⟨threadsPerBlock, max ((rows + threadsPerBlock - 1) / threadsPerBlock) 1⟩

def coverChecked (rows threadsPerBlock : Nat) : Except Fault Geometry :=
  if threadsPerBlock = 0 then .error .divisionByZero else .ok (cover rows threadsPerBlock)

end Geometry

/-- What a launch writes: the off-diagonal product that becomes the new iterate,
the previous iterate, and the partial sums. -/
structure Workspace (α : Type) where
  iterate : Array α
  previous : Array α
  partials : Array α

namespace Launch

variable {α : Type} [Arithmetic α]

/-- A fault leaves the workspace as it is at that moment. -/
abbrev LaunchM (α : Type) := ExceptT Fault (StateM (Workspace α))

/-- One thread block: its rows up to the first fault, then its partial. Threads
past the last row contribute zero. -/
def relaxThreads (kernel : Kernel) (sources : Sources α) (threads rows block : Nat) :
    LaunchM α Unit := do
  let before ← get
  let first := block * threads
  let count := min threads (rows - first)
  let (updates, outcome) := List.range count |> Fault.mapUntil fun thread =>
    kernel.updateRow sources before.iterate before.previous (first + thread)
  let start := first * kernel.blockSize
  let values := updates.flatMap RowUpdate.values
  modify fun workspace => { workspace with
    iterate := Storage.overwrite workspace.iterate start values
    previous := Storage.overwrite workspace.previous start values }
  outcome
  let scratch := updates.map RowUpdate.square ++ List.replicate (threads - count) 0
  let (total, _) ← Reduction.blockReduce scratch.toArray
  modify fun workspace => { workspace with
    partials := workspace.partials.setIfInBounds block total }

/-- Thread blocks in a given order. A fault ends its own block and no other; the
launch ends with the first one. -/
def relaxInOrder (kernel : Kernel) (sources : Sources α) (threads rows : Nat) :
    List Nat → LaunchM α Unit
  | [] => pure ()
  | block :: rest => ExceptT.mk do
    let outcome ← (relaxThreads kernel sources threads rows block).run
    let later ← (relaxInOrder kernel sources threads rows rest).run
    pure (do outcome; later)

def activeBlocks (geometry : Geometry) (rows : Nat) : Nat :=
  min ((rows + geometry.threadsPerBlock - 1) / geometry.threadsPerBlock) geometry.blocks

def fusedRelax (kernel : Kernel) (geometry : Geometry) (rows : Nat) (sources : Sources α) :
    LaunchM α Unit := do
  let values := rows * kernel.blockSize
  if (← get).partials.size < geometry.blocks then throw .outOfRange
  modify fun workspace => { workspace with
    partials := Storage.fill workspace.partials geometry.blocks 0 }
  if (← get).iterate.size < values ∨ (← get).previous.size < values then throw .outOfRange
  if geometry.threadsPerBlock * kernel.blockSize = 0 then throw .emptyChunk
  relaxInOrder kernel sources geometry.threadsPerBlock rows
    (List.range (activeBlocks geometry rows))

end Launch
end Relaxation

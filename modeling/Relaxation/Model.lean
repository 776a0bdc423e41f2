import Relaxation.Matrix.Assembly

/-!
Model problems: a five-point diffusion operator on a grid, and a chain that can
be cut into the subdomains of several ranks.
-/

namespace Relaxation.Model

variable {α : Type} [Arithmetic α]

def diffusionDiagonal : α := 5.0

/-- Dense block of one cell: a dominant diagonal and a weak coupling between
components, stronger above the diagonal than below. -/
def cellBlock (blockSize : Nat) : List α :=
  let upper : α := 0.5 / (blockSize : α)
  let lower : α := 0.5 * upper
  (List.range blockSize).flatMap fun j =>
    (List.range blockSize).map fun k =>
      if j = k then diffusionDiagonal else if j < k then upper else lower

def cellEntries (nx ny j i : Nat) : List (Entry α) :=
  let cell := j * nx + i
  (if 0 < i then [⟨cell, cell - 1, -1⟩] else []) ++
    (if i + 1 < nx then [⟨cell, cell + 1, -1⟩] else []) ++
    (if 0 < j then [⟨cell, cell - nx, -1⟩] else []) ++
    (if j + 1 < ny then [⟨cell, cell + nx, -1⟩] else [])

def gridEntries (nx ny : Nat) : List (Entry α) :=
  (List.range ny).flatMap fun j => (List.range nx).flatMap (cellEntries nx ny j)

def diffusion (nx ny blockSize : Nat) : Except (Failure α) (Matrix α) :=
  if nx = 0 ∨ ny = 0 ∨ blockSize = 0 then
    .error (.refused (.emptyGrid nx ny blockSize))
  else
    let cells := nx * ny
    Matrix.assemble cells cells blockSize
      (List.replicate cells (cellBlock blockSize)).flatten.toArray (gridEntries nx ny)

def chainRow (n : Nat) (coupling : α) (i : Nat) : List (Entry α) :=
  (if 0 < i then [⟨i, i - 1, coupling⟩] else []) ++
    (if i + 1 < n then [⟨i, i + 1, coupling⟩] else [])

def chain (n : Nat) (diagonal coupling : α) : Except (Failure α) (Matrix α) :=
  Matrix.assemble n n 1 (Array.replicate n diagonal)
    ((List.range n).flatMap (chainRow n coupling))

structure RowRange where
  first : Nat
  last : Nat
  deriving DecidableEq, Repr

def RowRange.length (range : RowRange) : Nat :=
  range.last - range.first

def partition (n rank ranks : Nat) : RowRange :=
  ⟨rank * n / ranks, (rank + 1) * n / ranks⟩

/-- The same cut, if the products on the way are words. -/
def partitionChecked (n rank ranks : Nat) : Except Fault RowRange := do
  let first ← Word.mul rank n
  if ranks = 0 then throw .divisionByZero
  let next ← Word.add rank 1
  let last ← Word.mul next n
  pure ⟨first / ranks, last / ranks⟩

/-- How one rank sees its part of a chain. Its ghost rows follow the owned ones:
the left neighbor's boundary row first, then the right one's. -/
structure Part where
  rank : Nat
  range : RowRange
  hasLeft : Bool
  hasRight : Bool

namespace Part

def of (n rank ranks : Nat) : Part where
  rank := rank
  range := partition n rank ranks
  hasLeft := 0 < rank
  hasRight := rank + 1 < ranks

def owned (part : Part) : Nat :=
  part.range.length

def leftGhost (part : Part) : Nat :=
  part.owned

def rightGhost (part : Part) : Nat :=
  part.owned + part.hasLeft.toNat

def columns (part : Part) : Nat :=
  part.owned + part.hasLeft.toNat + part.hasRight.toNat

def row (part : Part) (n : Nat) (coupling : α) (i : Nat) : List (Entry α) :=
  let global := part.range.first + i
  (if 0 < global then [⟨i, if 0 < i then i - 1 else part.leftGhost, coupling⟩] else []) ++
    (if global + 1 < n then
      [⟨i, if i + 1 < part.owned then i + 1 else part.rightGhost, coupling⟩]
    else [])

/-- Each neighbor gets the boundary row beside it and fills one ghost row. -/
def neighbors (part : Part) : List Neighbor :=
  (if part.hasLeft then [⟨part.rank - 1, [0], 0, 1⟩] else []) ++
    (if part.hasRight then [⟨part.rank + 1, [part.owned - 1], part.hasLeft.toNat, 1⟩] else [])

end Part

def chainPart (n : Nat) (diagonal coupling : α) (communicator : Communicator) :
    Except (Failure α) (Matrix α × RowRange) := do
  let part := Part.of n communicator.rank communicator.ranks
  if part.owned = 0 then
    throw (.refused (.emptyRank communicator.rank n communicator.ranks))
  let matrix ← Matrix.assemble part.owned part.columns 1 (Array.replicate part.owned diagonal)
    ((List.range part.owned).flatMap (part.row n coupling))
  let matrix ← matrix.withHalo (Halo.ofBlockRows communicator part.neighbors 1)
  pure (matrix, part.range)

def chainPartChecked (n : Nat) (diagonal coupling : α) (communicator : Communicator) :
    Except (Failure α) (Matrix α × RowRange) := do
  discard <| Failure.ofFault (partitionChecked n communicator.rank communicator.ranks)
  chainPart n diagonal coupling communicator

def referenceSolution (count : Nat) : Array Float :=
  (Array.range count).map fun i => 1.0 + Float.sin (0.1 * Float.ofNat i)

end Relaxation.Model

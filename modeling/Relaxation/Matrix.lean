import Relaxation.Block
import Relaxation.Halo

/-!
A sparse matrix whose dense diagonal blocks are stored apart. A coefficient off
the diagonal couples every component of its block row to the same component of
its block column. Columns past the owned rows are ghost rows, filled by the halo
before a product. The fields are not checked against each other here.
-/

namespace Relaxation

structure Matrix (α : Type) where
  rows : Nat
  /-- Owned and ghost block rows. -/
  columns : Nat
  blockSize : Nat
  diagonal : Array α
  /-- Coefficients off the diagonal, row after row. -/
  values : Array α
  columnIndices : Array Nat
  /-- Where the coefficients of a row start; the next entry is where they end. -/
  rowPointers : Array Nat
  halo : Option Halo

namespace Matrix

variable {α : Type}

def extraCount (matrix : Matrix α) : Nat :=
  matrix.values.size

def diagonalBlock (matrix : Matrix α) (row : Nat) : Except Fault (Block α matrix.blockSize) :=
  Block.read matrix.diagonal (row * (matrix.blockSize * matrix.blockSize))

/-- Describes how ghost rows are refreshed before a product. The halo may fill
no more ghost rows than there are, and sends owned rows only. -/
def withHalo (matrix : Matrix α) (halo : Halo) : Except (Failure α) (Matrix α) :=
  if matrix.columns < matrix.rows then
    .error (.faulted .overflow)
  else if matrix.columns - matrix.rows < halo.ghostRows then
    .error (.refused (.haloTooWide halo.ghostRows (matrix.columns - matrix.rows)))
  else if halo.maxSentRow.any (matrix.rows ≤ ·) then
    .error (.refused .haloForeignRow)
  else
    .ok { matrix with halo := some halo }

variable [Arithmetic α]

def componentProduct (matrix : Matrix α) (x : Array α) (first last component : Nat) :
    Except Fault α :=
  (List.range' first (last - first)).foldlM
    (fun sum index => do
      let value ← Storage.fetch matrix.values index
      let column ← Storage.fetch matrix.columnIndices index
      pure (sum + value * (← Storage.fetch x (column * matrix.blockSize + component))))
    0

def rowBounds (matrix : Matrix α) (row : Nat) : Except Fault (Nat × Nat) := do
  let first ← Storage.fetch matrix.rowPointers row
  let last ← Storage.fetch matrix.rowPointers (row + 1)
  pure (first, last)

def rowProduct (matrix : Matrix α) (x : Array α) (row : Nat) :
    List α × Except Fault Unit :=
  match matrix.rowBounds row with
  | .error fault => ([], .error fault)
  | .ok (first, last) =>
    List.range matrix.blockSize |> Fault.mapUntil (matrix.componentProduct x first last)

def storeRows (blockSize first : Nat) (products : List (List α)) (y : Array α) : Array α :=
  (products.zipIdx first).foldl
    (fun y (components, row) => Storage.overwrite y (row * blockSize) components) y

def checkVectors (matrix : Matrix α) (x y : Array α) : Except Fault Unit := do
  if x.size < matrix.columns * matrix.blockSize then throw .outOfRange
  if y.size < matrix.rows * matrix.blockSize then throw .outOfRange
  if matrix.blockSize = 0 then throw .emptyChunk

/-- The off-diagonal product over the owned rows takes the place of the first
values of `y`. Ghost values of `x` must be current. A fault ends its own row and
no other, and leaves in `y` what was computed. -/
def offDiagonalProduct (matrix : Matrix α) (x y : Array α) :
    Except Fault Unit × Array α :=
  match matrix.checkVectors x y with
  | .error fault => (.error fault, y)
  | .ok () =>
    let products := (List.range matrix.rows).map (matrix.rowProduct x)
    (products.forM Prod.snd, storeRows matrix.blockSize 0 (products.map Prod.fst) y)

def blockProduct (matrix : Matrix α) (x : Array α) (row : Nat) : Except Fault (List α) := do
  let block ← matrix.diagonalBlock row
  let own ← Storage.span x (row * matrix.blockSize) matrix.blockSize
  pure <| (List.finRange matrix.blockSize).map fun j =>
    Fin.foldl matrix.blockSize (fun sum k => sum + block.entry j k * own.get k) 0

def product (matrix : Matrix α) (x : Array α) : Except Fault (Array α) := do
  if x.size ≠ matrix.columns * matrix.blockSize then throw .productDimension
  let (outcome, coupled) :=
    matrix.offDiagonalProduct x (Array.replicate (matrix.rows * matrix.blockSize) 0)
  outcome
  let own ← (List.range matrix.rows).mapM (matrix.blockProduct x)
  pure (coupled.zipWith (· + ·) own.flatten.toArray)

end Matrix
end Relaxation

import Relaxation.Block.Factor
import Relaxation.Block.Triple
import Relaxation.Word

/-!
The inverted or factored diagonal of a system, computed once before a solve.
-/

namespace Relaxation

/-- One reciprocal per row, or one compact LU factor per block row. -/
inductive InverseDiagonal (α : Type) where
  | reciprocals (values : Array α)
  | factors (blockSize : Nat) (values : Array α)

def checkBlockSize {α : Type} (blockSize : Nat) : Except (Refusal α) Unit :=
  if blockSize = 0 ∨ maxBlockSize < blockSize then
    .error (.blockSizeRange blockSize maxBlockSize)
  else .ok ()

namespace InverseDiagonal

variable {α : Type}

def blockSize : InverseDiagonal α → Nat
  | .reciprocals _ => 1
  | .factors blockSize _ => blockSize

def values : InverseDiagonal α → Array α
  | .reciprocals values => values
  | .factors _ values => values

/-- Block rows covered. Factors of no components have no row count. -/
def rows : InverseDiagonal α → Except Fault Nat
  | .reciprocals values => .ok values.size
  | .factors blockSize values => do
    let blockLength ← Word.mul blockSize blockSize
    if blockLength = 0 then throw .divisionByZero
    pure (values.size / blockLength)

variable [Arithmetic α]

/-- Blocks of three components take the unrolled path. -/
def factorBlock : {n : Nat} → Block α n → Except α (Block α n)
  | 3, block => block.factorTriple
  | _, block => block.factor

def blockAt (diagonal : Array α) (n : Nat) (row : Fin (diagonal.size / (n * n))) :
    Block α n :=
  ⟨⟨diagonal.extract (row * (n * n)) (row * (n * n) + n * n), by
    have next := Nat.mul_le_mul_right (n * n) row.isLt
    have whole := Nat.div_mul_le_self diagonal.size (n * n)
    rw [Nat.succ_mul] at next
    simp
    omega⟩⟩

/-- Factors of every block, also for one component. The refusal names the first
singular block. -/
def ofBlocks (diagonal : Array α) (blockSize : Nat) :
    Except (Refusal α) (InverseDiagonal α) := do
  checkBlockSize blockSize
  let blockLength := blockSize * blockSize
  if diagonal.size % blockLength ≠ 0 then
    throw (.raggedDiagonal diagonal.size blockLength)
  let blocks ← (List.finRange (diagonal.size / blockLength)).mapM fun row =>
    (factorBlock (blockAt diagonal blockSize row)).mapError (.singularBlock row.val)
  pure (.factors blockSize (blocks.foldl (fun values block => values ++ block.entries.toArray) #[]))

def ofScalars (diagonal : Array α) : Except (Refusal α) (InverseDiagonal α) :=
  match diagonal.findIdx? fun value => !Arithmetic.usable value with
  | some row => .error (.unusableDiagonal row)
  | none => .ok (.reciprocals (diagonal.map fun value => 1 / value))

/-- Block size one is inverted, any other is factored. -/
def factorize (diagonal : Array α) (blockSize : Nat) :
    Except (Refusal α) (InverseDiagonal α) :=
  if blockSize = 1 then ofScalars diagonal else ofBlocks diagonal blockSize

end InverseDiagonal
end Relaxation

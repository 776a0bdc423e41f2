import Relaxation.InverseDiagonal

/-!
The update of one block row. With `e` the off-diagonal product of the row and
`p` its previous value, the new value is `x = D⁻¹ (rhs - e)`, and the row adds
the square of `D (x - p)` to the residual.
-/

namespace Relaxation

inductive Kernel where
  | scalar
  | triple
  | block (n : Nat)
  deriving DecidableEq, Repr

structure RowUpdate (α : Type) where
  values : List α
  square : α

structure Sources (α : Type) where
  diagonal : Array α
  inverse : Array α
  rhs : Array α

namespace Kernel

variable {α : Type}

def ofInverse : InverseDiagonal α → Kernel
  | .reciprocals _ => .scalar
  | .factors 3 _ => .triple
  | .factors n _ => .block n

def blockSize : Kernel → Nat
  | .scalar => 1
  | .triple => 3
  | .block n => n

def name : Kernel → String
  | .scalar => "jacobi"
  | .triple => "block_jacobi_3"
  | .block _ => "block_jacobi_n"

variable [Arithmetic α]

def scalarUpdate (diagonal inverse rhs product previous : α) : RowUpdate α :=
  let x := (rhs - product) * inverse
  let r := diagonal * (x - previous)
  ⟨[x], r * r⟩

def tripleUpdate (diagonal factor : Block α 3) (rhs product previous : Vector α 3) :
    RowUpdate α :=
  let x := factor.substituteTriple (Block.differenceTriple rhs product)
  let increment := Block.differenceTriple x previous
  let square := Fin.foldl 3
    (fun sum j =>
      let r := diagonal.rowTriple j increment
      sum + r * r)
    0
  ⟨x.toList, square⟩

def blockUpdate {n : Nat} (diagonal factor : Block α n) (rhs product previous : Vector α n) :
    RowUpdate α :=
  let x := factor.substitute (Vector.ofFn fun j => rhs.get j - product.get j)
  let square := Fin.foldl n
    (fun sum j =>
      let r := Fin.foldl n
        (fun r k => r + diagonal.entry j k * (x.get k - previous.get k))
        0
      sum + r * r)
    0
  ⟨x.toList, square⟩

/-- The update of one row from the stored vectors. The block kernel keeps its
temporaries for at most `maxBlockSize` components. -/
def updateRow (kernel : Kernel) (sources : Sources α) (iterate previous : Array α)
    (row : Nat) : Except Fault (RowUpdate α) := do
  match kernel with
  | .scalar =>
    let product ← Storage.fetch iterate row
    let before ← Storage.fetch previous row
    pure <| scalarUpdate (← Storage.fetch sources.diagonal row)
      (← Storage.fetch sources.inverse row) (← Storage.fetch sources.rhs row) product before
  | .triple =>
    let product ← Storage.span iterate (row * 3) 3
    let before ← Storage.span previous (row * 3) 3
    pure <| tripleUpdate (← Block.read sources.diagonal (row * 9))
      (← Block.read sources.inverse (row * 9)) (← Storage.span sources.rhs (row * 3) 3)
      product before
  | .block n =>
    let product ← Storage.span iterate (row * n) n
    let before ← Storage.span previous (row * n) n
    let diagonal ← Block.read sources.diagonal (row * (n * n))
    let factor ← Block.read sources.inverse (row * (n * n))
    let rhs ← Storage.span sources.rhs (row * n) n
    if maxBlockSize < n then throw .outOfRange
    pure (blockUpdate diagonal factor rhs product before)

end Kernel
end Relaxation

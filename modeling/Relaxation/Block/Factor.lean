import Relaxation.Arithmetic
import Relaxation.Block

/-!
Compact LU of a block without pivoting: the unit lower factor lies below the
diagonal, the upper one on and above it. Only pivots are tested.
-/

namespace Relaxation.Block

variable {α : Type} [Arithmetic α] {n : Nat}

/-- Elimination below one pivot. The multipliers take the place of the
eliminated entries. -/
def eliminate (block : Block α n) (pivot : Fin n) : Block α n :=
  ofFn fun i j =>
    if pivot < i ∧ pivot ≤ j then
      let multiplier := block.entry i pivot / block.entry pivot pivot
      if j = pivot then multiplier
      else block.entry i j - multiplier * block.entry pivot j
    else block.entry i j

/-- The compact factor, or the first pivot that is zero or not finite. -/
def factor (block : Block α n) : Except α (Block α n) :=
  (List.finRange n).foldlM
    (fun block pivot =>
      if Arithmetic.usable (block.entry pivot pivot) then .ok (block.eliminate pivot)
      else .error (block.entry pivot pivot))
    block

def forward (factor : Block α n) (rhs : Vector α n) : Vector α n :=
  Fin.foldl n
    (fun solved i =>
      solved.set i <|
        Fin.foldl n
          (fun sum j => if j < i then sum - solved.get j * factor.entry i j else sum)
          (rhs.get i))
    (Vector.replicate n 0)

def backward (factor : Block α n) (rhs : Vector α n) : Vector α n :=
  Fin.foldr n
    (fun i solved =>
      solved.set i <|
        Fin.foldl n
          (fun sum j => if i < j then sum - solved.get j * factor.entry i j else sum)
          (rhs.get i) / factor.entry i i)
    (Vector.replicate n 0)

def substitute (factor : Block α n) (rhs : Vector α n) : Vector α n :=
  factor.backward (factor.forward rhs)

end Relaxation.Block

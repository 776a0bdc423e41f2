import Relaxation.Storage

/-!
Dense square blocks, stored row after row as they lie in a diagonal.
-/

namespace Relaxation

def maxBlockSize : Nat := 9

structure Block (α : Type) (n : Nat) where
  entries : Vector α (n * n)

namespace Block

variable {α : Type} {n : Nat}

theorem position_lt (i j : Fin n) : i.val * n + j.val < n * n := by
  have row : (i.val + 1) * n ≤ n * n := Nat.mul_le_mul_right n i.isLt
  rw [Nat.add_mul, Nat.one_mul] at row
  have column := j.isLt
  omega

def rowOf (position : Fin (n * n)) : Fin n :=
  ⟨position.val / n, Nat.div_lt_of_lt_mul position.isLt⟩

def columnOf (position : Fin (n * n)) : Fin n :=
  ⟨position.val % n, Nat.mod_lt _ (Nat.pos_of_ne_zero fun zero => by
    subst zero; exact absurd position.isLt (by simp))⟩

def entry (block : Block α n) (i j : Fin n) : α :=
  have inside := position_lt i j
  block.entries[i.val * n + j.val]

def ofFn (f : Fin n → Fin n → α) : Block α n :=
  ⟨Vector.ofFn fun position => f (rowOf position) (columnOf position)⟩

def read (values : Array α) (start : Nat) : Except Fault (Block α n) := do
  pure ⟨← Storage.span values start (n * n)⟩

@[simp] theorem entry_ofFn (f : Fin n → Fin n → α) (i j : Fin n) :
    (ofFn f).entry i j = f i j := by
  have positive : 0 < n := Nat.lt_of_le_of_lt (Nat.zero_le _) i.isLt
  have row : rowOf ⟨i.val * n + j.val, position_lt i j⟩ = i := by
    apply Fin.ext
    simp only [rowOf]
    rw [Nat.mul_comm, Nat.mul_add_div positive, Nat.div_eq_of_lt j.isLt, Nat.add_zero]
  have column : columnOf ⟨i.val * n + j.val, position_lt i j⟩ = j := by
    apply Fin.ext
    simp only [columnOf]
    rw [Nat.mul_comm, Nat.mul_add_mod, Nat.mod_eq_of_lt j.isLt]
  simp only [entry, ofFn, Vector.getElem_ofFn]
  rw [row, column]

end Block
end Relaxation

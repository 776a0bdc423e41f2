import Relaxation.Launch
import Relaxation.Proofs.Elimination
import Relaxation.Proofs.Rounding

/-!
The unrolled path for three components is the general one. They test the same pivots and store
the same factors; the unrolled residual does not start from zero, and this shows in the sign of a
zero at most, which its square forgets. So the launches of both kernels are the same, fault for
fault and bit for bit.
-/

namespace Relaxation

variable {α : Type} [Arithmetic α]

section Squares

variable [SignedZeros α] [SignedProducts α]

theorem square_of_start (first : α) (later : List α) :
    later.foldl (· + ·) (0 + first) * later.foldl (· + ·) (0 + first) =
      later.foldl (· + ·) first * later.foldl (· + ·) first := by
  by_cases negative : first = -0
  · subst negative
    rw [SignedZeros.add_neg_zero]
    induction later with
    | nil => exact SignedProducts.square_neg_zero.symm
    | cons second later ih =>
        -- the negative zero is lost in the second value, which is then the first
        rw [List.foldl_cons, List.foldl_cons, SignedZeros.add_comm (-0), SignedZeros.add_neg_zero]
        by_cases negative : second = -0
        · rw [negative, SignedZeros.add_neg_zero]
          exact ih
        · rw [SignedZeros.zero_add second negative]
  · rw [SignedZeros.zero_add first negative]

end Squares

namespace Kernel

variable [SignedZeros α] [SignedProducts α]

theorem triple_update_eq_block_update (diagonal factor : Block α 3)
    (rhs product previous : Vector α 3) :
    tripleUpdate diagonal factor rhs product previous =
      blockUpdate diagonal factor rhs product previous := by
  unfold tripleUpdate blockUpdate
  simp only [Block.substitute_triple_eq SignedProducts.mul_comm, Block.difference_triple]
  congr 2
  funext sum j
  congr 1
  exact (square_of_start _ [_, _]).symm

theorem update_row_triple (sources : Sources α) :
    triple.updateRow sources = (block 3).updateRow sources := by
  funext iterate previous row
  simp only [updateRow, triple_update_eq_block_update]
  rfl

end Kernel

namespace Launch

/-- Of its kernel a launch knows how wide a row is and how it is updated. -/
theorem fused_relax_congr {kernel kernel' : Kernel} {sources : Sources α}
    (width : kernel.blockSize = kernel'.blockSize)
    (updates : kernel.updateRow sources = kernel'.updateRow sources) (geometry : Geometry)
    (rows : Nat) :
    fusedRelax kernel geometry rows sources = fusedRelax kernel' geometry rows sources := by
  have runs : ∀ threads block, relaxThreads kernel sources threads rows block =
      relaxThreads kernel' sources threads rows block := by
    intro threads block
    simp only [relaxThreads, width, updates]
  have order : ∀ threads blocks, relaxInOrder kernel sources threads rows blocks =
      relaxInOrder kernel' sources threads rows blocks := by
    intro threads blocks
    induction blocks with
    | nil => rfl
    | cons block rest ih => simp only [relaxInOrder, runs, ih]
  simp only [fusedRelax, width, order]

end Launch

/-- On three components both paths have the same factors or the same useless pivot, the same
solutions, and launches that leave the same workspace. -/
theorem unrolled_path_is_general (α : Type) [Arithmetic α] [SignedZeros α] [SignedProducts α] :
    (∀ block : Block α 3, block.factorTriple = block.factor) ∧
      (∀ (factor : Block α 3) (rhs : Vector α 3),
        factor.substituteTriple rhs = factor.substitute rhs) ∧
      ∀ (geometry : Geometry) (rows : Nat) (sources : Sources α) (workspace : Workspace α),
        Launch.fusedRelax .triple geometry rows sources workspace =
          Launch.fusedRelax (.block 3) geometry rows sources workspace := by
  refine ⟨Block.factor_triple_eq, fun factor rhs => ?_, fun geometry rows sources workspace => ?_⟩
  · exact Block.substitute_triple_eq SignedProducts.mul_comm factor rhs
  · have width : Kernel.triple.blockSize = (Kernel.block 3).blockSize := rfl
    have updates := Kernel.update_row_triple sources
    rw [Launch.fused_relax_congr width updates]

/-- A diagonal of negative zeros: the two residuals are zeros of different signs, and a launch
by either kernel is one launch. -/
theorem negative_zeros_launch_alike :
    let diagonal : Block Float 3 := .ofFn fun _ _ => -0
    let increment : Vector Float 3 := #v[1, 1, 1]
    let sources : Sources Float := ⟨diagonal.entries.toArray, #[1, 0, 0, 0, 1, 0, 0, 0, 1], #[1, 1, 1]⟩
    let workspace : Workspace Float := ⟨#[0, 0, 0], #[0, 0, 0], #[7]⟩
    (0 : Float) ≠ -0 ∧ diagonal.rowTriple 0 increment = -0 ∧
      Fin.foldl 3 (fun r k => r + diagonal.entry 0 k * increment.get k) 0 = 0 ∧
      Launch.fusedRelax .triple ⟨64, 1⟩ 1 sources workspace =
        Launch.fusedRelax (.block 3) ⟨64, 1⟩ 1 sources workspace :=
  ⟨by decide +kernel, by decide +kernel, by decide +kernel,
    (unrolled_path_is_general Float).2.2 _ _ _ _⟩

end Relaxation

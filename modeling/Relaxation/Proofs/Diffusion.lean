import Mathlib
import Relaxation.Proofs.ChainRows
import Relaxation.Proofs.Coefficients
import Relaxation.Proofs.Dominance
import Relaxation.Proofs.Residual

/-!
The diffusion problem on a grid of any shape. Every cell has the same block, whose diagonal
outweighs the rest of each of its rows by nine halves, and at most four neighbors, so no row
and no column of the rest weighs more than four.
-/

namespace Relaxation.Model

section Grid

variable {α : Type} [Arithmetic α]

theorem cell_entries_eq (nx ny j i : Nat) :
    (cellEntries nx ny j i : List (Entry α)) =
      sides (-1) (j * nx + i) (0 < i) (i + 1 < nx) (j * nx + i - 1) (j * nx + i + 1) ++
        sides (-1) (j * nx + i) (0 < j) (j + 1 < ny) (j * nx + i - nx) (j * nx + i + nx) := by
  simp only [cellEntries, sides, List.append_assoc]

def gridDiagonal (nx ny blockSize : Nat) : Array α :=
  (List.replicate (nx * ny) (cellBlock blockSize)).flatten.toArray

def gridMatrix (nx ny blockSize : Nat) : Matrix α :=
  .ofEntries (nx * ny) (nx * ny) blockSize (gridDiagonal nx ny blockSize) (gridEntries nx ny)

theorem length_cell_block (blockSize : Nat) :
    (cellBlock blockSize : List α).length = blockSize * blockSize := by
  unfold cellBlock
  exact length_flatMap_uniform _ blockSize blockSize fun _ _ => by simp

theorem size_grid_diagonal (nx ny blockSize : Nat) :
    (gridDiagonal nx ny blockSize : Array α).size = nx * ny * blockSize * blockSize := by
  simp [gridDiagonal, length_cell_block, Nat.mul_assoc]

theorem cell_lt {nx ny j i : Nat} (row : j < ny) (column : i < nx) : j * nx + i < nx * ny := by
  have whole := Kernel.row_end_le nx row
  rw [Nat.mul_comm nx ny]
  omega

theorem grid_placed {nx ny : Nat} {entry : Entry α} (member : entry ∈ gridEntries nx ny) :
    entry.row < nx * ny ∧ entry.column < nx * ny ∧ entry.row ≠ entry.column := by
  obtain ⟨j, inGrid, member⟩ := List.mem_flatMap.mp member
  obtain ⟨i, inRow, member⟩ := List.mem_flatMap.mp member
  have row := List.mem_range.mp inGrid
  have column := List.mem_range.mp inRow
  have here := cell_lt row column
  rw [cell_entries_eq] at member
  rcases List.mem_append.mp member with along | across
  · -- a neighbor in the same row of the grid
    obtain ⟨place, ⟨some, other⟩ | ⟨some, other⟩⟩ := mem_sides along
    · omega
    · have next := cell_lt row some
      omega
  · -- a neighbor in the row before or after
    obtain ⟨place, ⟨some, other⟩ | ⟨some, other⟩⟩ := mem_sides across
    · have before := Nat.le_mul_of_pos_left nx some
      omega
    · have next := cell_lt some column
      rw [Nat.succ_mul] at next
      omega

theorem grid_assembled (nx ny : Nat) {blockSize : Nat} (positive : 0 < blockSize) :
    Matrix.assemble (nx * ny) (nx * ny) blockSize (gridDiagonal nx ny blockSize)
      (gridEntries nx ny) = .ok (gridMatrix nx ny blockSize : Matrix α) :=
  Matrix.assemble_of_placed positive (Nat.le_refl _) (size_grid_diagonal nx ny blockSize)
    fun _ member => grid_placed member

theorem diffusion_ok {nx ny blockSize : Nat} (wide : 0 < nx) (high : 0 < ny)
    (positive : 0 < blockSize) :
    diffusion nx ny blockSize = .ok (gridMatrix nx ny blockSize : Matrix α) := by
  unfold diffusion
  rw [if_neg (by omega)]
  exact grid_assembled nx ny positive

theorem grid_sound (nx ny : Nat) {blockSize : Nat} (positive : 0 < blockSize) :
    (gridMatrix nx ny blockSize : Matrix α).Sound :=
  Matrix.sound_of_assemble (grid_assembled nx ny positive)

end Grid

section Cells

variable {blockSize : Nat}

def cellEntry (blockSize j k : Nat) : ℚ :=
  if j = k then 5 else if j < k then 1 / 2 / blockSize else 1 / 4 / blockSize

theorem getElem?_cell_block {j k : Nat} (row : j < blockSize) (column : k < blockSize) :
    (cellBlock blockSize : List ℚ)[j * blockSize + k]? = some (cellEntry blockSize j k) := by
  have diagonal : (diffusionDiagonal : ℚ) = 5 := by
    unfold diffusionDiagonal
    norm_num
  have upper : (0.5 : ℚ) / (blockSize : ℚ) = 1 / 2 / blockSize := by norm_num
  have lower : (0.5 : ℚ) * (0.5 / (blockSize : ℚ)) = 1 / 4 / blockSize := by ring
  refine (getElem?_flatMap_uniform _ blockSize blockSize (fun _ _ => by simp) row column).trans ?_
  rw [List.getElem?_map, List.getElem?_range column]
  refine congrArg some ?_
  rw [cellEntry, ← diagonal, ← upper, ← lower]

theorem grid_block_entry {nx ny row : Nat} (inside : row < nx * ny) (j k : Fin blockSize) :
    (Block.stored (gridDiagonal nx ny blockSize) (row * (blockSize * blockSize))
      blockSize).entry j k = cellEntry blockSize j k := by
  have repeated : (List.replicate (nx * ny) (cellBlock blockSize : List ℚ)).flatten =
      (List.range (nx * ny)).flatMap fun _ => cellBlock blockSize := by
    rw [List.flatMap_def, List.map_const', List.length_range]
  have found : (gridDiagonal nx ny blockSize : Array ℚ)[row * (blockSize * blockSize) +
      (j.val * blockSize + k.val)]? = some (cellEntry blockSize j k) := by
    unfold gridDiagonal
    rw [List.getElem?_toArray, repeated, getElem?_flatMap_uniform _ (blockSize * blockSize) _
      (fun _ _ => length_cell_block blockSize) inside (Block.position_lt j k),
      getElem?_cell_block j.isLt k.isLt]
  rw [Block.entry_stored, Array.getD_eq_getD_getElem?, found, Option.getD_some]

theorem abs_cell_entry_le {j k : Nat} (other : k ≠ j) :
    |cellEntry blockSize j k| ≤ 1 / 2 / blockSize := by
  have nonneg : (0 : ℚ) ≤ 1 / blockSize := by positivity
  unfold cellEntry
  rw [if_neg (Ne.symm other)]
  split
  · rw [abs_of_nonneg (by positivity)]
  · rw [abs_of_nonneg (by positivity), div_div, div_div]
    ring_nf
    ring_nf at nonneg
    linarith

theorem grid_block_outweighs {nx ny row : Nat} (inside : row < nx * ny) :
    (Block.stored (gridDiagonal nx ny blockSize) (row * (blockSize * blockSize))
      blockSize).Outweighs (9 / 2) := by
  intro i
  have positive : (0 : ℚ) < blockSize := by exact_mod_cast Nat.zero_lt_of_lt i.isLt
  have rest : (Block.stored (gridDiagonal nx ny blockSize) (row * (blockSize * blockSize))
      blockSize).offSum 0 i ≤ 1 / 2 := by
    calc (Block.stored (gridDiagonal nx ny blockSize) (row * (blockSize * blockSize))
          blockSize).offSum 0 i
        ≤ ∑ _ : Fin blockSize, (1 / 2 / blockSize : ℚ) := by
          apply Finset.sum_le_sum
          intro j _
          split
          · next other =>
              rw [grid_block_entry inside]
              exact abs_cell_entry_le fun same => other.2 (Fin.ext same)
          · positivity
      _ = 1 / 2 := by
          rw [Finset.sum_const, Finset.card_univ, Fintype.card_fin, nsmul_eq_mul,
            mul_div_cancel₀ _ (ne_of_gt positive)]
  have own : |(Block.stored (gridDiagonal nx ny blockSize : Array ℚ)
      (row * (blockSize * blockSize)) blockSize).entry i i| = 5 := by
    rw [grid_block_entry inside, cellEntry, if_pos rfl]
    norm_num
  rw [own]
  linarith

end Cells

section Weights

variable {line : Entry ℚ → Prop} [DecidablePred line]

theorem weight_sides_le {coupling : ℚ} {row left right first second : Nat}
    {hasLeft hasRight : Prop} [Decidable hasLeft] [Decidable hasRight]
    (onLeft : hasLeft → line ⟨row, left, coupling⟩ → row = first)
    (onRight : hasRight → line ⟨row, right, coupling⟩ → row = second) :
    Entry.weight line (sides coupling row hasLeft hasRight left right) ≤
      (if row = first then |coupling| else 0) + if row = second then |coupling| else 0 := by
  -- one neighbor weighs its coupling on the line, and nothing beside it
  have side : ∀ (has : Prop) [Decidable has] (column target : Nat),
      (has → line ⟨row, column, coupling⟩ → row = target) →
      Entry.weight line (if has then [⟨row, column, coupling⟩] else []) ≤
        if row = target then |coupling| else 0 := by
    intro has _ column target on
    by_cases hit : has ∧ line ⟨row, column, coupling⟩
    · rw [if_pos hit.1, if_pos (on hit.1 hit.2), Entry.weight_cons, if_pos hit.2]
      simp [Entry.weight]
    · have none : Entry.weight line (if has then [⟨row, column, coupling⟩] else []) = 0 := by
        by_cases some : has
        · rw [if_pos some, Entry.weight_cons, if_neg fun listed => hit ⟨some, listed⟩]
          simp [Entry.weight]
        · rw [if_neg some]
          rfl
      rw [none]
      split
      · exact abs_nonneg _
      · exact le_refl 0
  unfold sides
  rw [Entry.weight_append]
  exact add_le_add (side hasLeft left first onLeft) (side hasRight right second onRight)

theorem sum_cell_le (nx ny target : Nat) :
    ∑ j ∈ Finset.range ny, ∑ i ∈ Finset.range nx,
      (if j * nx + i = target then |(-1 : ℚ)| else 0) ≤ 1 := by
  rw [Exact.sum_rows (fun cell => if cell = target then |(-1 : ℚ)| else 0), abs_neg, abs_one]
  exact Exact.sum_once_le zero_le_one (fun i j first second => first.trans second.symm) _

theorem grid_weight_le (nx ny west east south north : Nat)
    (onWest : ∀ cell, 0 < cell → line ⟨cell, cell - 1, -1⟩ → cell = west)
    (onEast : ∀ cell, line ⟨cell, cell + 1, -1⟩ → cell = east)
    (onSouth : ∀ cell, nx ≤ cell → line ⟨cell, cell - nx, -1⟩ → cell = south)
    (onNorth : ∀ cell, line ⟨cell, cell + nx, -1⟩ → cell = north) :
    Entry.weight line (gridEntries nx ny) ≤ 4 := by
  have cell : ∀ j i, Entry.weight line (cellEntries nx ny j i) ≤
      ((if j * nx + i = west then |(-1 : ℚ)| else 0) +
        if j * nx + i = east then |(-1 : ℚ)| else 0) +
      ((if j * nx + i = south then |(-1 : ℚ)| else 0) +
        if j * nx + i = north then |(-1 : ℚ)| else 0) := by
    intro j i
    rw [cell_entries_eq, Entry.weight_append]
    apply add_le_add
    · exact weight_sides_le (fun some => onWest _ (by omega)) fun _ => onEast _
    · refine weight_sides_le (fun some => onSouth _ ?_) fun _ => onNorth _
      exact (Nat.le_mul_of_pos_left nx some).trans (Nat.le_add_right _ _)
  calc Entry.weight line (gridEntries nx ny)
      = ∑ j ∈ Finset.range ny, ∑ i ∈ Finset.range nx,
          Entry.weight line (cellEntries nx ny j i) := by
        unfold gridEntries
        rw [Entry.weight_flatMap]
        exact Finset.sum_congr rfl fun j _ => Entry.weight_flatMap _ nx
    _ ≤ ∑ j ∈ Finset.range ny, ∑ i ∈ Finset.range nx,
          (((if j * nx + i = west then |(-1 : ℚ)| else 0) +
            if j * nx + i = east then |(-1 : ℚ)| else 0) +
          ((if j * nx + i = south then |(-1 : ℚ)| else 0) +
            if j * nx + i = north then |(-1 : ℚ)| else 0)) :=
        Finset.sum_le_sum fun j _ => Finset.sum_le_sum fun i _ => cell j i
    _ ≤ 4 := by
        simp only [Finset.sum_add_distrib]
        linarith [sum_cell_le nx ny west, sum_cell_le nx ny east, sum_cell_le nx ny south,
          sum_cell_le nx ny north]

end Weights

section Sums

variable (nx ny blockSize : Nat)

theorem grid_row_sum_le {row : Nat} (inside : row < nx * ny) :
    (gridMatrix nx ny blockSize).rowSum row ≤ 4 :=
  (Matrix.row_sum_le inside).trans <|
    grid_weight_le nx ny row row row row (fun _ _ here => here) (fun _ here => here)
      (fun _ _ here => here) fun _ here => here

theorem grid_column_sum_le (column : Nat) :
    (gridMatrix nx ny blockSize).columnSum column ≤ 4 := by
  refine (Matrix.column_sum_le column).trans ?_
  apply grid_weight_le nx ny (column + 1) (column - 1) (column + nx) (column - nx)
  · intro cell positive here
    have met : cell - 1 = column := here
    omega
  · intro cell here
    have met : cell + 1 = column := here
    omega
  · intro cell behind here
    have met : cell - nx = column := here
    omega
  · intro cell here
    have met : cell + nx = column := here
    omega

end Sums
end Relaxation.Model

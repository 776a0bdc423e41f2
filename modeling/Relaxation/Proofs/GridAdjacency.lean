import Mathlib
import Relaxation.Proofs.CompressedRows
import Relaxation.Proofs.Diffusion

/-!
Which cells of the diffusion problem are coupled. Cells are numbered line by line, so that the
last cell of a line comes right before the first one of the next, and on a grid of one column a
step along a line and a step across are the same number apart. What is stored are the couplings of
cells side by side on the grid and no others, whatever its shape.
-/

namespace Relaxation.Model

def Beside (i j i' j' : Nat) : Prop :=
  ((i : ℤ) - i').natAbs + ((j : ℤ) - j').natAbs = 1

/-- A matrix that couples the cells of a grid that are side by side, each pair by minus one. -/
structure Adjacency {α : Type} [Arithmetic α] (nx ny : Nat) (matrix : Matrix α) : Prop where
  cells : matrix.rows = nx * ny ∧ matrix.columns = nx * ny
  inside : ∀ {row column index : Nat}, matrix.StoredAt row column index →
    row < nx * ny ∧ column < nx * ny
  adjacent : ∀ {i j i' j' : Nat}, i < nx → j < ny → i' < nx → j' < ny →
    ((∃ index, matrix.StoredAt (j * nx + i) (j' * nx + i') index) ↔ Beside i j i' j')
  once : ∀ {row column index index' : Nat}, matrix.StoredAt row column index →
    matrix.StoredAt row column index' → index = index'
  coefficient : ∀ {row column index : Nat}, matrix.StoredAt row column index →
    matrix.values[index]? = some (-1)
  symmetric : ∀ {row column : Nat}, (∃ index, matrix.StoredAt row column index) ↔
    ∃ index, matrix.StoredAt column row index
  /-- Cells of different lines are only coupled above each other. -/
  lines : ∀ {row column index : Nat}, matrix.StoredAt row column index →
    row / nx = column / nx ∨ row % nx = column % nx
  count : matrix.extraCount = 2 * ((nx - 1) * ny + nx * (ny - 1))
  increasing : ∀ {row column column' index index' : Nat}, matrix.StoredAt row column index →
    matrix.StoredAt row column' index' → index < index' → column < column'

section Numbers

variable {nx ny i j i' j' : Nat}

theorem beside_iff : Beside i j i' j' ↔
    j' = j ∧ (i' + 1 = i ∨ i' = i + 1) ∨ i' = i ∧ (j' + 1 = j ∨ j' = j + 1) := by
  unfold Beside
  omega

theorem Beside.symm (beside : Beside i j i' j') : Beside i' j' i j := by
  unfold Beside at *
  omega

theorem number_above (nx i j : Nat) : (j + 1) * nx + i = j * nx + i + nx := by
  rw [Nat.succ_mul, Nat.add_right_comm]

theorem cell_injective (column : i < nx) (column' : i' < nx)
    (same : j * nx + i = j' * nx + i') : i = i' ∧ j = j' := by
  obtain ⟨line, place⟩ := position_split j column
  obtain ⟨line', place'⟩ := position_split j' column'
  rw [same] at line place
  exact ⟨place.symm.trans place', line.symm.trans line'⟩

end Numbers

section Counts

theorem length_sides_eq {coupling : α} {row left right : Nat} {hasLeft hasRight : Prop}
    [Decidable hasLeft] [Decidable hasRight] :
    (sides coupling row hasLeft hasRight left right).length =
      (if hasLeft then 1 else 0) + if hasRight then 1 else 0 := by
  unfold sides
  split <;> split <;> rfl

theorem sum_behind_first (n : Nat) :
    ∑ i ∈ Finset.range n, (if 0 < i then 1 else 0) = n - 1 := by
  cases n with
  | zero => rfl
  | succ n =>
      rw [Finset.sum_range_succ']
      simp

theorem sum_before_last (n : Nat) :
    ∑ i ∈ Finset.range n, (if i + 1 < n then 1 else 0) = n - 1 := by
  rw [← sum_behind_first, ← Finset.sum_range_reflect]
  apply Finset.sum_congr rfl
  intro i inside
  have bound := Finset.mem_range.mp inside
  exact if_congr (by omega) rfl rfl

end Counts

section Entries

variable {α : Type} [Arithmetic α] {nx ny : Nat}

theorem mem_cell_entries_iff {i j : Nat} (column : i < nx) (line : j < ny) {entry : Entry α} :
    entry ∈ cellEntries nx ny j i ↔ ∃ i' j', i' < nx ∧ j' < ny ∧ Beside i j i' j' ∧
      entry = ⟨j * nx + i, j' * nx + i', -1⟩ := by
  rw [cell_entries_eq, List.mem_append, mem_sides_iff, mem_sides_iff]
  constructor
  · rintro ((⟨some, rfl⟩ | ⟨some, rfl⟩) | (⟨some, rfl⟩ | ⟨some, rfl⟩))
    · obtain ⟨before, rfl⟩ := Nat.exists_eq_succ_of_ne_zero some.ne'
      exact ⟨before, j, by omega, line, beside_iff.mpr (by omega), rfl⟩
    · exact ⟨i + 1, j, some, line, beside_iff.mpr (by omega), rfl⟩
    · obtain ⟨below, rfl⟩ := Nat.exists_eq_succ_of_ne_zero some.ne'
      refine ⟨i, below, column, by omega, beside_iff.mpr (by omega), ?_⟩
      rw [number_above, Nat.add_sub_cancel]
    · refine ⟨i, j + 1, column, some, beside_iff.mpr (by omega), ?_⟩
      rw [number_above]
  · rintro ⟨i', j', column', line', beside, rfl⟩
    rcases beside_iff.mp beside with ⟨rfl, rfl | rfl⟩ | ⟨rfl, rfl | rfl⟩
    · exact .inl (.inl ⟨Nat.succ_pos i', rfl⟩)
    · exact .inl (.inr ⟨column', rfl⟩)
    · refine .inr (.inl ⟨Nat.succ_pos j', ?_⟩)
      rw [number_above, Nat.add_sub_cancel]
    · refine .inr (.inr ⟨line', ?_⟩)
      rw [number_above]

theorem mem_grid_entries_iff {entry : Entry α} : entry ∈ gridEntries nx ny ↔
    ∃ i j i' j', (i < nx ∧ j < ny) ∧ (i' < nx ∧ j' < ny) ∧ Beside i j i' j' ∧
      entry = ⟨j * nx + i, j' * nx + i', -1⟩ := by
  simp only [gridEntries, List.mem_flatMap, List.mem_range]
  constructor
  · rintro ⟨j, line, i, column, member⟩
    obtain ⟨i', j', column', line', beside, same⟩ := (mem_cell_entries_iff column line).mp member
    exact ⟨i, j, i', j', ⟨column, line⟩, ⟨column', line'⟩, beside, same⟩
  · rintro ⟨i, j, i', j', ⟨column, line⟩, ⟨column', line'⟩, beside, same⟩
    exact ⟨j, line, i, column,
      (mem_cell_entries_iff column line).mpr ⟨i', j', column', line', beside, same⟩⟩

theorem cell_entries_own (nx ny j i : Nat) :
    ∀ entry ∈ (cellEntries nx ny j i : List (Entry α)), entry.row = j * nx + i := by
  intro entry member
  rw [cell_entries_eq] at member
  rcases List.mem_append.mp member with along | across
  · exact (mem_sides along).1
  · exact (mem_sides across).1

theorem cell_entries_distinct (ny j : Nat) {i : Nat} (column : i < nx) :
    Entry.Distinct (cellEntries nx ny j i : List (Entry α)) := by
  rw [cell_entries_eq]
  apply List.pairwise_append.mpr
  refine ⟨distinct_sides fun _ _ => by omega, distinct_sides fun _ _ => by omega,
    fun a along b across _ => ?_⟩
  have below := Nat.le_mul_of_pos_left nx (n := j)
  -- a cell with a neighbor along its line has a line of two cells or more
  obtain ⟨_, ⟨some, first⟩ | ⟨some, first⟩⟩ := mem_sides along <;>
    obtain ⟨_, ⟨more, second⟩ | ⟨more, second⟩⟩ := mem_sides across
  · have whole := below more
    omega
  · omega
  · omega
  · omega

theorem flatMap_lines {β : Type} (pieces : Nat → Nat → List β) (nx ny : Nat) :
    ((List.range ny).flatMap fun j => (List.range nx).flatMap (pieces j)) =
      (List.range (ny * nx)).flatMap fun cell => pieces (cell / nx) (cell % nx) := by
  induction ny with
  | zero => simp
  | succ ny ih =>
      rw [List.range_succ, List.flatMap_append, ih, List.flatMap_singleton, Nat.succ_mul,
        List.range_add, List.flatMap_append, List.flatMap_map]
      congr 1
      apply List.flatMap_congr
      intro i listed
      obtain ⟨line, place⟩ := position_split ny (List.mem_range.mp listed)
      rw [line, place]

theorem grid_entries_distinct (nx ny : Nat) :
    Entry.Distinct (gridEntries nx ny : List (Entry α)) := by
  rw [gridEntries, flatMap_lines]
  apply Entry.distinct_pieces
  · intro cell entry member
    rw [cell_entries_own _ _ _ _ entry member, Nat.div_add_mod']
  · intro cell inside
    have wide : 0 < nx := Nat.pos_of_mul_pos_left (Nat.zero_lt_of_lt inside)
    exact cell_entries_distinct ny _ (Nat.mod_lt cell wide)

theorem length_grid_entries (nx ny : Nat) : (gridEntries nx ny : List (Entry α)).length =
    2 * ((nx - 1) * ny + nx * (ny - 1)) := by
  have cell : ∀ j i, (cellEntries nx ny j i : List (Entry α)).length =
      ((if 0 < i then 1 else 0) + if i + 1 < nx then 1 else 0) +
        ((if 0 < j then 1 else 0) + if j + 1 < ny then 1 else 0) := by
    intro j i
    rw [cell_entries_eq, List.length_append, length_sides_eq, length_sides_eq]
  have line : ∀ j, ((List.range nx).flatMap (cellEntries nx ny j) : List (Entry α)).length =
      2 * (nx - 1) + nx * ((if 0 < j then 1 else 0) + if j + 1 < ny then 1 else 0) := by
    intro j
    rw [List.length_flatMap, Exact.sum_list_range]
    simp only [cell]
    rw [Finset.sum_add_distrib, Finset.sum_add_distrib, sum_behind_first, sum_before_last,
      Finset.sum_const, Finset.card_range, smul_eq_mul, ← Nat.two_mul]
  rw [gridEntries, List.length_flatMap, Exact.sum_list_range]
  simp only [line]
  rw [Finset.sum_add_distrib, Finset.sum_const, Finset.card_range, ← Finset.mul_sum,
    Finset.sum_add_distrib, sum_behind_first, sum_before_last, smul_eq_mul]
  ring

end Entries

section Coupled

variable {α : Type} [Arithmetic α] (nx ny blockSize : Nat)

theorem grid_compressed :
    (gridMatrix nx ny blockSize : Matrix α).Compressed (gridEntries nx ny) :=
  Matrix.of_entries_compressed fun _ member => (grid_placed member).1

theorem grid_stored_at_iff {row column : Nat} :
    (∃ index, (gridMatrix nx ny blockSize : Matrix α).StoredAt row column index) ↔
      ∃ i j i' j', (i < nx ∧ j < ny) ∧ (i' < nx ∧ j' < ny) ∧ Beside i j i' j' ∧
        row = j * nx + i ∧ column = j' * nx + i' := by
  refine ((grid_compressed nx ny blockSize).named row column).trans ?_
  constructor
  · rintro ⟨entry, member, rfl, rfl⟩
    obtain ⟨i, j, i', j', cell, cell', beside, rfl⟩ := mem_grid_entries_iff.mp member
    exact ⟨i, j, i', j', cell, cell', beside, rfl, rfl⟩
  · rintro ⟨i, j, i', j', cell, cell', beside, rfl, rfl⟩
    exact ⟨_, mem_grid_entries_iff.mpr ⟨i, j, i', j', cell, cell', beside, rfl⟩, rfl, rfl⟩

theorem grid_adjacency : Adjacency nx ny (gridMatrix nx ny blockSize : Matrix α) where
  cells := ⟨rfl, rfl⟩
  inside := by
    intro row column index stored
    obtain ⟨i, j, i', j', ⟨wide, high⟩, ⟨wide', high'⟩, _, rfl, rfl⟩ :=
      (grid_stored_at_iff nx ny blockSize).mp ⟨index, stored⟩
    exact ⟨cell_lt high wide, cell_lt high' wide'⟩
  adjacent := by
    intro i j i' j' wide high wide' high'
    rw [grid_stored_at_iff]
    constructor
    · rintro ⟨a, b, a', b', ⟨inLine, _⟩, ⟨inLine', _⟩, beside, first, second⟩
      obtain ⟨rfl, rfl⟩ := cell_injective wide inLine first
      obtain ⟨rfl, rfl⟩ := cell_injective wide' inLine' second
      exact beside
    · exact fun beside => ⟨i, j, i', j', ⟨wide, high⟩, ⟨wide', high'⟩, beside, rfl, rfl⟩
  once := (grid_compressed nx ny blockSize).once
  coefficient := by
    intro row column index stored
    obtain ⟨value, found⟩ :=
      (Matrix.stored_at_iff fun _ member => (grid_placed member).1).mp stored
    -- no two entries share a place, so what is stored is what was given
    have given := (Matrix.stored_perm (grid_entries_distinct nx ny)).mem_iff.mp
      (List.mem_of_getElem? found)
    obtain ⟨i, j, i', j', _, _, _, same⟩ := mem_grid_entries_iff.mp given
    rw [gridMatrix, Matrix.getElem?_values, found, Option.map_some, same]
  symmetric := by
    intro row column
    rw [grid_stored_at_iff, grid_stored_at_iff]
    constructor <;>
      rintro ⟨i, j, i', j', cell, cell', beside, first, second⟩ <;>
      exact ⟨i', j', i, j, cell', cell, beside.symm, second, first⟩
  lines := by
    intro row column index stored
    obtain ⟨i, j, i', j', ⟨wide, _⟩, ⟨wide', _⟩, beside, rfl, rfl⟩ :=
      (grid_stored_at_iff nx ny blockSize).mp ⟨index, stored⟩
    obtain ⟨line, place⟩ := position_split j wide
    obtain ⟨line', place'⟩ := position_split j' wide'
    rw [line, place, line', place']
    rcases beside_iff.mp beside with ⟨same, _⟩ | ⟨same, _⟩
    · exact .inl same.symm
    · exact .inr same.symm
  count := by
    have kept := (Matrix.stored_perm (grid_entries_distinct (α := α) nx ny)).length_eq
    rw [length_grid_entries] at kept
    simpa [Matrix.extraCount, gridMatrix, Matrix.ofEntries, Matrix.stored] using kept
  increasing := (grid_compressed nx ny blockSize).increasing

/-- The diffusion problem has a matrix on every grid that has cells, and its matrix couples the
cells side by side, whatever the shape of the grid. -/
theorem grid_couples_cells_beside : (0 < nx → 0 < ny → 0 < blockSize → ∃ matrix : Matrix α,
      diffusion nx ny blockSize = .ok matrix ∧ matrix.blockSize = blockSize ∧
        Adjacency nx ny matrix) ∧
    ((∃ refusal : Refusal α, diffusion nx ny blockSize = .error (.refused refusal)) ↔
      nx = 0 ∨ ny = 0 ∨ blockSize = 0) := by
  refine ⟨fun wide high positive => ⟨gridMatrix nx ny blockSize, diffusion_ok wide high positive,
    rfl, grid_adjacency nx ny blockSize⟩, ?_, ?_⟩
  · rintro ⟨refusal, refused⟩
    by_contra full
    rw [diffusion_ok (by omega) (by omega) (by omega)] at refused
    cases refused
  · exact fun empty => ⟨.emptyGrid nx ny blockSize, if_pos empty⟩

/-- Two lines of three cells, where the third cell comes right before the fourth, and a column of
three, where the lines are single cells. -/
theorem two_lines_and_column_coupled :
    (∃ matrix : Matrix Float, diffusion 3 2 3 = .ok matrix ∧ Adjacency 3 2 matrix ∧
      matrix.extraCount = 14 ∧ ¬∃ index, matrix.StoredAt 2 3 index) ∧
    ∃ matrix : Matrix Float, diffusion 1 3 2 = .ok matrix ∧ Adjacency 1 3 matrix ∧
      matrix.extraCount = 4 ∧ ∃ index, matrix.StoredAt 1 2 index := by
  obtain ⟨lines, made, _, coupled⟩ :=
    (grid_couples_cells_beside (α := Float) 3 2 3).1 (by decide) (by decide) (by decide)
  obtain ⟨column, made', _, coupled'⟩ :=
    (grid_couples_cells_beside (α := Float) 1 3 2).1 (by decide) (by decide) (by decide)
  have above : Beside 0 1 0 2 := rfl
  refine ⟨⟨lines, made, coupled, coupled.count, ?_⟩, column, made', coupled', coupled'.count,
    (coupled'.adjacent (by decide) (by decide) (by decide) (by decide)).mpr above⟩
  rintro ⟨index, stored⟩
  exact absurd (coupled.lines stored) (by decide)

end Coupled
end Relaxation.Model

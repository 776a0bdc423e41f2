import Mathlib
import Relaxation.Proofs.Exact
import Relaxation.Proofs.Rows

/-!
The coefficients off the diagonal, seen as a dense matrix. An assembled coefficient is the sum
of all entries given for its place, so the absolute sum of a row or a column is at most that of
the entries given for it.
-/

namespace Relaxation

namespace Exact

theorem foldl_sum {β : Type} (f : β → ℚ) (items : List β) (start : ℚ) :
    items.foldl (fun sum item => sum + f item) start = start + (items.map f).sum := by
  induction items generalizing start with
  | nil => simp
  | cons item rest ih => rw [List.foldl_cons, ih, List.map_cons, List.sum_cons, add_assoc]

theorem foldl_range'_sum (f : Nat → ℚ) (first last : Nat) :
    (List.range' first (last - first)).foldl (fun sum index => sum + f index) 0 =
      ∑ index ∈ Finset.Ico first last, f index := by
  rw [foldl_sum, zero_add, Finset.sum_Ico_eq_sum_range, List.range'_eq_map_range, List.map_map]
  rfl

theorem sum_once_le {p : Nat → Prop} [DecidablePred p] {value : ℚ} (nonneg : 0 ≤ value)
    (once : ∀ i j, p i → p j → i = j) (n : Nat) :
    ∑ i ∈ Finset.range n, (if p i then value else 0) ≤ value := by
  rw [← Finset.sum_filter, Finset.sum_const, nsmul_eq_mul]
  apply mul_le_of_le_one_left nonneg
  have single : ((Finset.range n).filter p).card ≤ 1 := by
    apply Finset.card_le_one.mpr
    intro i first j second
    exact once i j (Finset.mem_filter.mp first).2 (Finset.mem_filter.mp second).2
  exact_mod_cast single

end Exact

namespace Entry

def valueAt (entries : List (Entry ℚ)) (row column : Nat) : ℚ :=
  (entries.map fun entry =>
    if entry.row = row ∧ entry.column = column then entry.value else 0).sum

/-- Absolute sum of the entries on a line. -/
def weight (line : Entry ℚ → Prop) [DecidablePred line] (entries : List (Entry ℚ)) : ℚ :=
  (entries.map fun entry => if line entry then |entry.value| else 0).sum

theorem value_at_cons (entry : Entry ℚ) (rest : List (Entry ℚ)) (row column : Nat) :
    valueAt (entry :: rest) row column =
      (if entry.row = row ∧ entry.column = column then entry.value else 0) +
        valueAt rest row column := by
  simp [valueAt]

theorem value_at_perm {entries entries' : List (Entry ℚ)} (same : entries.Perm entries')
    (row column : Nat) : valueAt entries row column = valueAt entries' row column :=
  List.Perm.sum_eq (same.map _)

theorem value_at_merge_from (current : Entry ℚ) (entries : List (Entry ℚ)) (row column : Nat) :
    valueAt (mergeFrom current entries) row column = valueAt (current :: entries) row column := by
  induction entries generalizing current with
  | nil => rfl
  | cons following rest ih =>
      rw [mergeFrom]
      by_cases place : current.samePlace following = true
      · -- two entries of one place go on as one with the sum of their values
        rw [if_pos place, ih, value_at_cons, value_at_cons, value_at_cons]
        simp only [samePlace, Bool.and_eq_true, beq_iff_eq] at place
        rw [← place.1, ← place.2]
        split <;> ring
      · rw [if_neg place, value_at_cons, ih, ← value_at_cons]

theorem value_at_merge (entries : List (Entry ℚ)) (row column : Nat) :
    valueAt (merge entries) row column = valueAt entries row column := by
  cases entries with
  | nil => rfl
  | cons first rest => exact value_at_merge_from first rest row column

section Weights

variable {line : Entry ℚ → Prop} [DecidablePred line]

theorem weight_cons (entry : Entry ℚ) (rest : List (Entry ℚ)) :
    weight line (entry :: rest) = (if line entry then |entry.value| else 0) + weight line rest := by
  simp [weight]

theorem weight_append (first second : List (Entry ℚ)) :
    weight line (first ++ second) = weight line first + weight line second := by
  simp [weight]

theorem weight_flatMap (pieces : Nat → List (Entry ℚ)) (n : Nat) :
    weight line ((List.range n).flatMap pieces) = ∑ i ∈ Finset.range n, weight line (pieces i) := by
  induction n with
  | zero => simp [weight]
  | succ n ih =>
      rw [List.range_succ, List.flatMap_append, weight_append, ih, Finset.sum_range_succ,
        List.flatMap_singleton]

/-- Places of a line that no entry stands at twice weigh no more than the line. -/
theorem sum_abs_value_le (place : Nat → Nat × Nat) (distinct : ∀ i j, place i = place j → i = j)
    (on : ∀ i entry, place i = (entry.row, entry.column) → line entry) (entries : List (Entry ℚ))
    (n : Nat) :
    ∑ i ∈ Finset.range n, |valueAt entries (place i).1 (place i).2| ≤ weight line entries := by
  induction entries with
  | nil => simp [valueAt, weight]
  | cons entry rest ih =>
      -- no place is listed twice, so the entry stands at one of them at most
      have here : ∑ i ∈ Finset.range n,
          |if entry.row = (place i).1 ∧ entry.column = (place i).2 then entry.value else 0| ≤
            if line entry then |entry.value| else 0 := by
        simp only [apply_ite abs, abs_zero]
        by_cases listed : line entry
        · rw [if_pos listed]
          apply Exact.sum_once_le (abs_nonneg _)
          intro i j first second
          apply distinct
          rw [← Prod.eta (place i), ← Prod.eta (place j), ← first.1, ← first.2, ← second.1,
            ← second.2]
        · rw [if_neg listed]
          apply le_of_eq
          apply Finset.sum_eq_zero
          intro i _
          exact if_neg fun at_place =>
            listed (on i entry (Prod.ext at_place.1.symm at_place.2.symm))
      calc ∑ i ∈ Finset.range n, |valueAt (entry :: rest) (place i).1 (place i).2|
          ≤ ∑ i ∈ Finset.range n,
              (|if entry.row = (place i).1 ∧ entry.column = (place i).2 then entry.value else 0| +
                |valueAt rest (place i).1 (place i).2|) := by
            apply Finset.sum_le_sum
            intro i _
            rw [value_at_cons]
            exact abs_add_le _ _
        _ ≤ (if line entry then |entry.value| else 0) + weight line rest := by
            rw [Finset.sum_add_distrib]
            exact add_le_add here ih
        _ = weight line (entry :: rest) := (weight_cons entry rest).symm

end Weights
end Entry

namespace Matrix

def offDiagonal (matrix : Matrix ℚ) (row column : Nat) : ℚ :=
  ∑ index ∈ Finset.Ico (matrix.rowPointers.getD row 0) (matrix.rowPointers.getD (row + 1) 0),
    if matrix.columnIndices.getD index 0 = column then matrix.values.getD index 0 else 0

def rowSum (matrix : Matrix ℚ) (row : Nat) : ℚ :=
  ∑ column ∈ Finset.range matrix.columns, |matrix.offDiagonal row column|

def columnSum (matrix : Matrix ℚ) (column : Nat) : ℚ :=
  ∑ row ∈ Finset.range matrix.rows, |matrix.offDiagonal row column|

section Sound

variable {matrix : Matrix ℚ} (sound : matrix.Sound)

include sound

theorem coupling_eq_sum (x : Array ℚ) {row : Nat} (inside : row < matrix.rows) (component : Nat) :
    matrix.coupling x row component = ∑ column ∈ Finset.range matrix.columns,
      matrix.offDiagonal row column * x.getD (column * matrix.blockSize + component) 0 := by
  have last := sound.bounded row inside
  unfold coupling offDiagonal
  dsimp only
  rw [Exact.foldl_range'_sum]
  simp only [Finset.sum_mul]
  -- column by column or coefficient by coefficient: each names one column
  rw [Finset.sum_comm]
  apply Finset.sum_congr rfl
  intro index member
  have range := Finset.mem_Ico.mp member
  have within := column_lt sound (show index < matrix.values.size by omega)
  simp only [ite_mul, zero_mul]
  rw [Finset.sum_ite_eq, if_pos (Finset.mem_range.mpr within)]

theorem abs_coupling_sub_le {x y : Array ℚ} {row component : Nat} {distance : ℚ}
    (inside : row < matrix.rows)
    (close : ∀ column, column < matrix.columns →
      |x.getD (column * matrix.blockSize + component) 0 -
        y.getD (column * matrix.blockSize + component) 0| ≤ distance) :
    |matrix.coupling x row component - matrix.coupling y row component| ≤
      matrix.rowSum row * distance := by
  rw [coupling_eq_sum sound x inside, coupling_eq_sum sound y inside, ← Finset.sum_sub_distrib,
    rowSum, Finset.sum_mul]
  refine (Finset.abs_sum_le_sum_abs _ _).trans ?_
  apply Finset.sum_le_sum
  intro column member
  rw [← mul_sub, abs_mul]
  exact mul_le_mul_of_nonneg_left (close column (Finset.mem_range.mp member)) (abs_nonneg _)

end Sound

section Assembled

variable {rows columns blockSize : Nat} {diagonal : Array ℚ} {entries : List (Entry ℚ)}

theorem off_diagonal_of_entries {row : Nat} (inside : row < rows) (column : Nat) :
    (ofEntries rows columns blockSize diagonal entries).offDiagonal row column =
      Entry.valueAt entries row column := by
  have folded := fold_row rows columns blockSize diagonal entries
    (fun sum value stored => sum + if stored = column then value else 0) (0 : ℚ) inside
  rw [Exact.foldl_range'_sum, Exact.foldl_sum, zero_add] at folded
  -- neither sorting nor merging changes what the entries of a place add up to
  have same := List.mergeSort_perm entries Entry.notAfter
  rw [offDiagonal, folded, ← Entry.value_at_perm same, ← Entry.value_at_merge]
  unfold Entry.valueAt stored
  generalize Entry.merge (entries.mergeSort Entry.notAfter) = merged
  induction merged with
  | nil => rfl
  | cons entry rest ih =>
      by_cases mine : entry.row = row
      · simp [mine, ih]
      · simp [mine, ih]

theorem row_sum_le {row : Nat} (inside : row < rows) :
    (ofEntries rows columns blockSize diagonal entries).rowSum row ≤
      Entry.weight (fun entry => entry.row = row) entries := by
  unfold rowSum
  simp only [off_diagonal_of_entries inside]
  apply Entry.sum_abs_value_le fun column => (row, column)
  · intro i j same
    exact (Prod.mk.inj same).2
  · intro i entry same
    exact (Prod.mk.inj same).1.symm

theorem column_sum_le (column : Nat) :
    (ofEntries rows columns blockSize diagonal entries).columnSum column ≤
      Entry.weight (fun entry => entry.column = column) entries := by
  have each : (ofEntries rows columns blockSize diagonal entries).columnSum column =
      ∑ row ∈ Finset.range rows, |Entry.valueAt entries row column| := by
    apply Finset.sum_congr rfl
    intro row member
    have inside : row < rows := Finset.mem_range.mp member
    rw [off_diagonal_of_entries inside]
  rw [each]
  apply Entry.sum_abs_value_le fun row => (row, column)
  · intro i j same
    exact (Prod.mk.inj same).1
  · intro i entry same
    exact (Prod.mk.inj same).2.symm

end Assembled
end Matrix
end Relaxation

import Relaxation.Matrix.Assembly
import Relaxation.Proofs.Product

/-!
An assembled matrix is sound: row pointers count the entries of earlier rows, and every
stored column lies inside the matrix.
-/

namespace Relaxation

theorem length_running_totals (start : Nat) (counts : List Nat) :
    (runningTotals start counts).length = counts.length + 1 := by
  induction counts generalizing start with
  | nil => rfl
  | cons count rest ih => simp [runningTotals, ih]

theorem getElem?_running_totals (start : Nat) (counts : List Nat) {k : Nat}
    (bound : k ≤ counts.length) :
    (runningTotals start counts)[k]? = some (start + (counts.take k).sum) := by
  induction counts generalizing start k with
  | nil =>
      have first : k = 0 := by simpa using bound
      subst first
      rfl
  | cons count rest ih =>
      cases k with
      | zero => simp [runningTotals]
      | succ k =>
          have within : k ≤ rest.length := by simpa using bound
          rw [runningTotals, List.getElem?_cons_succ, ih (start + count) within]
          simp [Nat.add_assoc]

namespace Entry

variable {α : Type}

def before (entries : List (Entry α)) (row : Nat) : Nat :=
  entries.countP fun entry => decide (entry.row < row)

theorem before_succ (entries : List (Entry α)) (row : Nat) :
    before entries (row + 1) =
      before entries row + entries.countP fun entry => entry.row == row := by
  unfold before
  induction entries with
  | nil => rfl
  | cons entry rest ih =>
      simp only [List.countP_cons, ih]
      rcases Nat.lt_trichotomy entry.row row with earlier | same | later
      · have next : entry.row < row + 1 := by omega
        simp [earlier, next, Nat.ne_of_lt earlier]
        omega
      · simp [same]
        omega
      · have next : ¬ entry.row < row + 1 := by omega
        simp [next, Nat.not_lt_of_gt later, Nat.ne_of_gt later]

variable [Arithmetic α]

theorem mem_mergeFrom {current : Entry α} {entries : List (Entry α)} {merged : Entry α}
    (member : merged ∈ mergeFrom current entries) :
    ∃ entry ∈ current :: entries, entry.row = merged.row ∧ entry.column = merged.column := by
  induction entries generalizing current with
  | nil =>
      have same : merged = current := by simpa [mergeFrom] using member
      exact ⟨current, List.mem_cons_self, by rw [same], by rw [same]⟩
  | cons next rest ih =>
      rw [mergeFrom] at member
      by_cases place : current.samePlace next = true
      · -- the merged entry goes on under the place of the first
        rw [if_pos place] at member
        obtain ⟨entry, listed, row, column⟩ := ih member
        rcases List.mem_cons.mp listed with same | later
        · subst same
          exact ⟨current, List.mem_cons_self, row, column⟩
        · exact ⟨entry, List.mem_cons_of_mem _ (List.mem_cons_of_mem _ later), row, column⟩
      · rw [if_neg place] at member
        rcases List.mem_cons.mp member with same | later
        · exact ⟨current, List.mem_cons_self, by rw [same], by rw [same]⟩
        · obtain ⟨entry, listed, row, column⟩ := ih later
          exact ⟨entry, List.mem_cons_of_mem _ listed, row, column⟩

theorem mem_merge {entries : List (Entry α)} {merged : Entry α} (member : merged ∈ merge entries) :
    ∃ entry ∈ entries, entry.row = merged.row ∧ entry.column = merged.column := by
  cases entries with
  | nil => cases member
  | cons first rest => exact mem_mergeFrom member

end Entry

namespace Matrix

variable {α : Type}

theorem getElem?_row_counts (rows : Nat) (entries : List (Entry α)) (row : Nat) :
    (rowCounts rows entries)[row]? =
      if row < rows then some (entries.countP fun entry => entry.row == row) else none := by
  -- counted for any counters to begin with, since each entry adds to its own
  have counted : ∀ counts : Array Nat,
      (entries.foldl (fun counts entry => counts.modify entry.row (· + 1)) counts)[row]? =
        counts[row]?.map (· + entries.countP fun entry => entry.row == row) := by
    induction entries with
    | nil => simp
    | cons entry rest ih =>
        intro counts
        rw [List.foldl_cons, ih, Array.getElem?_modify, List.countP_cons]
        by_cases here : entry.row = row
        · simp only [here, if_true, beq_self_eq_true, Option.map_map]
          congr 1
          funext count
          simp only [Function.comp_apply]
          omega
        · simp [here]
  unfold rowCounts
  rw [counted]
  by_cases inside : row < rows
  · simp [inside]
  · simp [inside]

theorem row_counts_eq (rows : Nat) (entries : List (Entry α)) :
    (rowCounts rows entries).toList =
      (List.range rows).map fun row => entries.countP fun entry => entry.row == row := by
  apply List.ext_getElem?
  intro row
  rw [Array.getElem?_toList, getElem?_row_counts]
  by_cases inside : row < rows
  · simp [inside]
  · simp [inside]

theorem length_row_counts (rows : Nat) (entries : List (Entry α)) :
    (rowCounts rows entries).toList.length = rows := by
  rw [row_counts_eq, List.length_map, List.length_range]

theorem sum_row_counts (entries : List (Entry α)) {rows row : Nat} (inside : row ≤ rows) :
    ((rowCounts rows entries).toList.take row).sum = Entry.before entries row := by
  rw [row_counts_eq, ← List.map_take, List.take_range, Nat.min_eq_left inside]
  clear inside
  induction row with
  | zero => simp [Entry.before]
  | succ row ih =>
      rw [List.range_succ, List.map_append, List.sum_append, ih, Entry.before_succ]
      simp

variable [Arithmetic α]

section Assembled

variable {rows columns blockSize : Nat} {diagonal : Array α} {entries : List (Entry α)}

def stored (entries : List (Entry α)) : List (Entry α) :=
  Entry.merge (entries.mergeSort Entry.notAfter)

theorem row_pointers_eq (rows columns blockSize : Nat) (diagonal : Array α)
    (entries : List (Entry α)) :
    (ofEntries rows columns blockSize diagonal entries).rowPointers =
      ((List.range (rows + 1)).map (Entry.before (stored entries))).toArray := by
  have counts := length_row_counts rows (stored entries)
  change (runningTotals 0 (rowCounts rows (stored entries)).toList).toArray = _
  congr 1
  apply List.ext_getElem?
  intro row
  by_cases inside : row ≤ rows
  · rw [getElem?_running_totals 0 _ (by omega), sum_row_counts _ inside, Nat.zero_add,
      List.getElem?_map, List.getElem?_range (by omega), Option.map_some]
  · rw [List.getElem?_eq_none (by rw [length_running_totals]; omega),
      List.getElem?_eq_none (by rw [List.length_map, List.length_range]; omega)]

theorem getElem?_row_pointers (rows columns blockSize : Nat) (diagonal : Array α)
    (entries : List (Entry α)) (row : Nat) :
    (ofEntries rows columns blockSize diagonal entries).rowPointers[row]? =
      if row ≤ rows then some (Entry.before (stored entries) row) else none := by
  rw [row_pointers_eq, List.getElem?_toArray, List.getElem?_map]
  by_cases inside : row ≤ rows
  · rw [if_pos inside, List.getElem?_range (Nat.lt_succ_of_le inside), Option.map_some]
  · rw [if_neg inside, List.getElem?_eq_none (by rw [List.length_range]; omega), Option.map_none]

theorem row_start (rows columns blockSize : Nat) (diagonal : Array α) (entries : List (Entry α))
    {row : Nat} (inside : row ≤ rows) :
    (ofEntries rows columns blockSize diagonal entries).rowPointers.getD row 0 =
      Entry.before (stored entries) row := by
  rw [Array.getD_eq_getD_getElem?, getElem?_row_pointers, if_pos inside, Option.getD_some]

theorem getElem?_column_indices (index : Nat) :
    (ofEntries rows columns blockSize diagonal entries).columnIndices[index]? =
      (stored entries)[index]?.map Entry.column := by
  rw [← List.getElem?_map, ← List.getElem?_toArray]
  rfl

theorem getElem?_values (index : Nat) :
    (ofEntries rows columns blockSize diagonal entries).values[index]? =
      (stored entries)[index]?.map Entry.value := by
  rw [← List.getElem?_map, ← List.getElem?_toArray]
  rfl

theorem assemble_ok {matrix : Matrix α}
    (assembled : assemble rows columns blockSize diagonal entries = .ok matrix) :
    0 < blockSize ∧ rows ≤ columns ∧ diagonal.size = rows * blockSize * blockSize ∧
      (∀ entry ∈ entries, entry.row < rows ∧ entry.column < columns ∧ entry.row ≠ entry.column) ∧
      matrix = ofEntries rows columns blockSize diagonal entries := by
  unfold assemble at assembled
  by_cases empty : blockSize = 0
  · rw [if_pos empty] at assembled
    cases assembled
  rw [if_neg empty] at assembled
  by_cases missing : columns < rows
  · rw [if_pos missing] at assembled
    cases assembled
  rw [if_neg missing] at assembled
  by_cases wrong : diagonal.size ≠ rows * blockSize * blockSize
  · rw [if_pos wrong] at assembled
    split at assembled <;> cases assembled
  rw [if_neg wrong] at assembled
  cases found : entries.find? (Entry.misplaced rows columns) with
  | some entry =>
      rw [found] at assembled
      cases assembled
  | none =>
      rw [found] at assembled
      cases assembled
      refine ⟨by omega, by omega, not_not.mp wrong, fun entry member => ?_, rfl⟩
      have placed := List.find?_eq_none.mp found entry member
      simp only [Entry.misplaced, Bool.or_eq_true, decide_eq_true_eq, beq_iff_eq, not_or,
        Nat.not_le] at placed
      exact ⟨placed.1.1, placed.1.2, placed.2⟩

theorem assemble_of_placed (positive : 0 < blockSize) (covers : rows ≤ columns)
    (size : diagonal.size = rows * blockSize * blockSize)
    (placed : ∀ entry ∈ entries,
      entry.row < rows ∧ entry.column < columns ∧ entry.row ≠ entry.column) :
    assemble rows columns blockSize diagonal entries =
      .ok (ofEntries rows columns blockSize diagonal entries) := by
  have none : entries.find? (Entry.misplaced rows columns) = none := by
    apply List.find?_eq_none.mpr
    intro entry member
    obtain ⟨row, column, apart⟩ := placed entry member
    simp only [Entry.misplaced, Bool.or_eq_true, decide_eq_true_eq, beq_iff_eq, not_or, Nat.not_le]
    exact ⟨⟨row, column⟩, apart⟩
  unfold assemble
  rw [if_neg (by omega), if_neg (by omega), if_neg (not_not.mpr size), none]

theorem assemble_overflows (positive : 0 < blockSize) (covers : rows ≤ columns)
    (other : diagonal.size ≠ rows * blockSize * blockSize)
    (beyond : Word.limit ≤ rows * blockSize * blockSize) :
    assemble rows columns blockSize diagonal entries = .error (.faulted .overflow) := by
  unfold assemble
  rw [if_neg (by omega), if_neg (by omega), if_pos other, if_pos beyond]

theorem assemble_error {failure : Failure α}
    (failed : assemble rows columns blockSize diagonal entries = .error failure) :
    (failure = .faulted .overflow ∧ 0 < blockSize ∧ rows ≤ columns ∧
        diagonal.size ≠ rows * blockSize * blockSize ∧
        Word.limit ≤ rows * blockSize * blockSize) ∨
      ∃ refusal, failure = .refused refusal ∧ refusal.kind = .precondition := by
  unfold assemble at failed
  split_ifs at failed with empty missing other beyond
  · cases failed
    exact .inr ⟨_, rfl, rfl⟩
  · cases failed
    exact .inr ⟨_, rfl, rfl⟩
  · cases failed
    exact .inl ⟨rfl, Nat.pos_of_ne_zero empty, Nat.not_lt.mp missing, other, beyond⟩
  · cases failed
    exact .inr ⟨_, rfl, rfl⟩
  · split at failed
    · cases failed
      exact .inr ⟨_, rfl, rfl⟩
    · cases failed

theorem mem_stored {merged : Entry α} (member : merged ∈ stored entries) :
    ∃ entry ∈ entries, entry.row = merged.row ∧ entry.column = merged.column := by
  obtain ⟨entry, listed, place⟩ := Entry.mem_merge member
  exact ⟨entry, List.mem_mergeSort.mp listed, place⟩

theorem sound_of_assemble {matrix : Matrix α}
    (assembled : assemble rows columns blockSize diagonal entries = .ok matrix) :
    matrix.Sound := by
  obtain ⟨positive, covers, size, placed, rfl⟩ := assemble_ok assembled
  refine ⟨positive, covers, size, ?_, fun row inside => ?_, ?_, fun column member => ?_⟩
  · simp only [ofEntries, List.size_toArray, length_running_totals, length_row_counts]
  · rw [row_start rows columns blockSize diagonal entries inside]
    have count := List.countP_le_length (p := fun entry : Entry α => decide (entry.row < row + 1))
      (l := stored entries)
    unfold Entry.before
    simpa [ofEntries, stored] using count
  · simp [ofEntries]
  · obtain ⟨merged, listed, rfl⟩ : ∃ merged ∈ stored entries, merged.column = column := by
      simpa [ofEntries, stored] using member
    obtain ⟨entry, given, _, column⟩ := mem_stored listed
    exact column ▸ (placed entry given).2.1

end Assembled

end Matrix
end Relaxation

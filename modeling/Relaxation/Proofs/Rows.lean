import Relaxation.Proofs.Assembly

/-!
The entries of an assembled matrix, row by row. Where no place has two entries, assembly
only sorts, so that a row adds up its own entries, in some order.
-/

namespace Relaxation

variable {α : Type}

namespace Entry

theorem not_after_trans (a b c : Entry α) (first : a.notAfter b = true) (second : b.notAfter c = true) :
    a.notAfter c = true := by
  simp only [notAfter, Bool.or_eq_true, Bool.and_eq_true, decide_eq_true_eq, beq_iff_eq] at *
  omega

theorem not_after_total (a b : Entry α) : (a.notAfter b || b.notAfter a) = true := by
  simp only [notAfter, Bool.or_eq_true, Bool.and_eq_true, decide_eq_true_eq, beq_iff_eq]
  omega

def Distinct (entries : List (Entry α)) : Prop :=
  entries.Pairwise fun a b => a.row = b.row → a.column ≠ b.column

theorem Distinct.perm {entries entries' : List (Entry α)} (distinct : Distinct entries)
    (same : entries.Perm entries') : Distinct entries' :=
  (same.pairwise_iff fun apart row column => apart row.symm column.symm).mp distinct

theorem merge_from_distinct [Arithmetic α] {current : Entry α} {entries : List (Entry α)}
    (distinct : Distinct (current :: entries)) : mergeFrom current entries = current :: entries := by
  induction entries generalizing current with
  | nil => rfl
  | cons following rest ih =>
      obtain ⟨apart, later⟩ := List.pairwise_cons.mp distinct
      have elsewhere : ¬current.samePlace following = true := by
        simp only [samePlace, Bool.and_eq_true, beq_iff_eq]
        exact fun same => apart following List.mem_cons_self same.1 same.2
      rw [mergeFrom, if_neg elsewhere, ih later]

theorem merge_distinct [Arithmetic α] {entries : List (Entry α)} (distinct : Distinct entries) :
    merge entries = entries := by
  cases entries with
  | nil => rfl
  | cons first rest => exact merge_from_distinct distinct

def Earlier (a b : Entry α) : Prop :=
  a.row < b.row ∨ a.row = b.row ∧ a.column < b.column

instance : Std.Asymm (@Earlier α) where
  asymm a b order back := by
    unfold Earlier at order back
    omega

def Sorted (entries : List (Entry α)) : Prop :=
  entries.Pairwise fun a b => a.notAfter b = true

theorem merge_sort_sorted (entries : List (Entry α)) : Sorted (entries.mergeSort notAfter) :=
  List.pairwise_mergeSort not_after_trans not_after_total entries

theorem earlier_of_not_after {a b c : Entry α} (first : a.notAfter b = true)
    (apart : ¬a.samePlace b = true) (second : b.notAfter c = true) : Earlier a c := by
  simp only [notAfter, samePlace, Earlier, Bool.or_eq_true, Bool.and_eq_true, decide_eq_true_eq,
    beq_iff_eq] at *
  omega

/-- Once the place changes, it does not come back. -/
theorem earlier_behind {current following : Entry α} {rest : List (Entry α)}
    (sorted : Sorted (current :: following :: rest)) (apart : ¬current.samePlace following = true) :
    ∀ entry ∈ following :: rest, Earlier current entry := by
  obtain ⟨least, later⟩ := List.pairwise_cons.mp sorted
  intro entry listed
  apply earlier_of_not_after (least following List.mem_cons_self) apart
  rcases List.mem_cons.mp listed with same | behind
  · subst same
    simp [notAfter]
  · exact (List.pairwise_cons.mp later).1 entry behind

section Merged

variable [Arithmetic α] {entries : List (Entry α)}

theorem merge_from_earlier {current : Entry α} (sorted : Sorted (current :: entries)) :
    (mergeFrom current entries).Pairwise Earlier := by
  induction entries generalizing current with
  | nil => exact List.pairwise_singleton _ current
  | cons following rest ih =>
      obtain ⟨least, later⟩ := List.pairwise_cons.mp sorted
      rw [mergeFrom]
      by_cases place : current.samePlace following = true
      · rw [if_pos place]
        apply ih
        exact List.pairwise_cons.mpr
          ⟨fun entry member => least entry (List.mem_cons_of_mem _ member), later.tail⟩
      · rw [if_neg place]
        apply List.pairwise_cons.mpr
        refine ⟨fun merged member => ?_, ih later⟩
        obtain ⟨entry, listed, row, column⟩ := mem_mergeFrom member
        have strict := earlier_behind sorted place entry listed
        unfold Earlier at strict ⊢
        rwa [← row, ← column]

theorem merge_earlier (sorted : Sorted entries) : (merge entries).Pairwise Earlier := by
  cases entries with
  | nil => exact List.Pairwise.nil
  | cons first rest => exact merge_from_earlier sorted

end Merged

def InRows (entries : List (Entry α)) : Prop :=
  entries.Pairwise fun a b => a.row ≤ b.row

theorem filter_append_filter {entries : List (Entry α)} (sorted : InRows entries) (row : Nat) :
    entries.filter (fun entry => decide (entry.row < row)) ++
      entries.filter (fun entry => decide (row ≤ entry.row)) = entries := by
  induction entries with
  | nil => rfl
  | cons first rest ih =>
      obtain ⟨least, later⟩ := List.pairwise_cons.mp sorted
      by_cases early : first.row < row
      · have late : ¬row ≤ first.row := by omega
        simp only [List.filter_cons, early, late, decide_true, decide_false, if_true,
          Bool.false_eq_true, if_false, List.cons_append, ih later]
      · -- from the first late entry on, all are late
        have none : rest.filter (fun entry => decide (entry.row < row)) = [] := by
          apply List.filter_eq_nil_iff.mpr
          intro entry member
          have bound := least entry member
          simp only [decide_eq_true_eq]
          omega
        have all : rest.filter (fun entry => decide (row ≤ entry.row)) = rest := by
          apply List.filter_eq_self.mpr
          intro entry member
          have bound := least entry member
          simp only [decide_eq_true_eq]
          omega
        have late : row ≤ first.row := by omega
        simp only [List.filter_cons, early, late, decide_true, decide_false, if_true,
          Bool.false_eq_true, if_false, none, all, List.nil_append]

theorem before_le_iff {entries : List (Entry α)} (sorted : InRows entries) (row : Nat) {index : Nat}
    (inside : index < entries.length) :
    before entries row ≤ index ↔ row ≤ entries[index].row := by
  have early : (entries.filter fun entry => decide (entry.row < row)).length = before entries row :=
    List.countP_eq_length_filter.symm
  have found : (entries.filter (fun entry => decide (entry.row < row)) ++
      entries.filter (fun entry => decide (row ≤ entry.row)))[index]? = some entries[index] := by
    rw [filter_append_filter sorted row]
    exact List.getElem?_eq_getElem inside
  rcases Nat.lt_or_ge index (before entries row) with first | behind
  · rw [List.getElem?_append_left (early ▸ first)] at found
    have earlier := of_decide_eq_true (List.mem_filter.mp (List.mem_of_getElem? found)).2
    omega
  · rw [List.getElem?_append_right (early ▸ behind)] at found
    have later := of_decide_eq_true (List.mem_filter.mp (List.mem_of_getElem? found)).2
    exact iff_of_true behind later

theorem drop_take_row {entries : List (Entry α)} (sorted : InRows entries) (row : Nat) :
    (entries.drop (before entries row)).take (before entries (row + 1) - before entries row) =
      entries.filter fun entry => decide (entry.row = row) := by
  have early : (entries.filter fun entry => decide (entry.row < row)).length = before entries row :=
    List.countP_eq_length_filter.symm
  have late : entries.drop (before entries row) =
      entries.filter fun entry => decide (row ≤ entry.row) := by
    rw [← early]
    conv_lhs =>
      arg 2
      rw [← filter_append_filter sorted row]
    exact List.drop_left
  have mine : (entries.filter fun entry => decide (row ≤ entry.row)).filter
      (fun entry => decide (entry.row < row + 1)) =
      entries.filter fun entry => decide (entry.row = row) := by
    rw [List.filter_filter]
    apply List.filter_congr
    intro entry _
    rw [← Bool.decide_and, decide_eq_decide]
    omega
  -- behind the earlier rows, as many entries are taken as the row has
  have count : before entries (row + 1) - before entries row =
      ((entries.filter fun entry => decide (row ≤ entry.row)).filter
        fun entry => decide (entry.row < row + 1)).length := by
    rw [before_succ, Nat.add_sub_cancel_left, mine, ← List.countP_eq_length_filter]
    rfl
  have later : InRows (entries.filter fun entry => decide (row ≤ entry.row)) := sorted.filter _
  rw [late, count, ← mine]
  conv_lhs =>
    arg 2
    rw [← filter_append_filter later (row + 1)]
  exact List.take_left

end Entry

namespace Matrix

theorem foldl_range' {β : Type} (step : β → Entry α → β) (entries : List (Entry α)) (last : Entry α)
    {first count : Nat} (inside : first + count ≤ entries.length) (start : β) :
    (List.range' first count).foldl (fun sum index => step sum (entries.getD index last)) start =
      ((entries.drop first).take count).foldl step start := by
  induction count generalizing first start with
  | zero => simp
  | succ count ih =>
      have here : first < entries.length := by omega
      rw [List.range'_succ, List.foldl_cons, ih (by omega), List.drop_eq_getElem_cons here,
        List.take_succ_cons, List.foldl_cons]
      simp [here]

section Sorted

variable [Arithmetic α] {rows columns blockSize : Nat} {diagonal : Array α} {entries : List (Entry α)}

theorem stored_perm (distinct : Entry.Distinct entries) : (stored entries).Perm entries := by
  have sorted := List.mergeSort_perm entries Entry.notAfter
  unfold stored
  rw [Entry.merge_distinct (distinct.perm sorted.symm)]
  exact sorted

theorem stored_earlier (entries : List (Entry α)) : (stored entries).Pairwise Entry.Earlier :=
  Entry.merge_earlier (Entry.merge_sort_sorted entries)

theorem stored_in_rows (entries : List (Entry α)) : Entry.InRows (stored entries) := by
  apply (stored_earlier entries).imp
  intro a b order
  rcases order with above | ⟨same, _⟩
  · exact Nat.le_of_lt above
  · exact Nat.le_of_eq same

theorem fold_row {β : Type} (rows columns blockSize : Nat) (diagonal : Array α)
    (entries : List (Entry α)) (step : β → α → Nat → β) (start : β) {row : Nat}
    (inside : row < rows) :
    (List.range' ((ofEntries rows columns blockSize diagonal entries).rowPointers.getD row 0)
        ((ofEntries rows columns blockSize diagonal entries).rowPointers.getD (row + 1) 0 -
          (ofEntries rows columns blockSize diagonal entries).rowPointers.getD row 0)).foldl
      (fun sum index => step sum
        ((ofEntries rows columns blockSize diagonal entries).values.getD index 0)
        ((ofEntries rows columns blockSize diagonal entries).columnIndices.getD index 0)) start =
      ((stored entries).filter fun entry => decide (entry.row = row)).foldl
        (fun sum entry => step sum entry.value entry.column) start := by
  let last : Entry α := ⟨0, 0, 0⟩
  have value : ∀ index, (ofEntries rows columns blockSize diagonal entries).values.getD index 0 =
      ((stored entries).getD index last).value := by
    intro index
    rw [List.getD_eq_getElem?_getD, Array.getD_eq_getD_getElem?, getElem?_values]
    exact Option.getD_map _ last _
  have column : ∀ index,
      (ofEntries rows columns blockSize diagonal entries).columnIndices.getD index 0 =
        ((stored entries).getD index last).column := by
    intro index
    rw [List.getD_eq_getElem?_getD, Array.getD_eq_getD_getElem?, getElem?_column_indices]
    exact Option.getD_map _ last _
  have bound : Entry.before (stored entries) row +
      (Entry.before (stored entries) (row + 1) - Entry.before (stored entries) row) ≤
        (stored entries).length := by
    have more := Entry.before_succ (stored entries) row
    have most : Entry.before (stored entries) (row + 1) ≤ (stored entries).length :=
      List.countP_le_length
    omega
  simp only [value, column]
  rw [row_start rows columns blockSize diagonal entries (Nat.le_of_lt inside),
    row_start rows columns blockSize diagonal entries inside,
    ← Entry.drop_take_row (stored_in_rows entries), ← foldl_range' _ _ last bound]

theorem coupling_of_entries (x : Array α) {row component : Nat} (inside : row < rows) :
    (ofEntries rows columns blockSize diagonal entries).coupling x row component =
      ((stored entries).filter fun entry => decide (entry.row = row)).foldl
        (fun sum entry => sum + entry.value * x.getD (entry.column * blockSize + component) 0) 0 :=
  fold_row rows columns blockSize diagonal entries
    (fun sum value column => sum + value * x.getD (column * blockSize + component) 0) 0 inside

theorem row_perm (distinct : Entry.Distinct entries) (row : Nat) :
    ((stored entries).filter fun entry => decide (entry.row = row)).Perm
      (entries.filter fun entry => decide (entry.row = row)) :=
  (stored_perm distinct).filter _

end Sorted
end Matrix
end Relaxation

import Mathlib
import Relaxation.Proofs.Rows

/-!
What assembly makes of a list of entries. A place is stored once if an entry names it, in its row
and in the order of the columns, with the values given for it added up in the order in which they
came. So the matrix depends on the order of the entries only as far as they share a place.
-/

namespace Relaxation

variable {α : Type}

namespace Entry

def At (row column : Nat) (entry : Entry α) : Prop :=
  entry.row = row ∧ entry.column = column

instance (row column : Nat) (entry : Entry α) : Decidable (At row column entry) :=
  inferInstanceAs (Decidable (_ ∧ _))

def given (entries : List (Entry α)) (row column : Nat) : List α :=
  (entries.filter fun entry => decide (At row column entry)).map value

section Given

variable {entries : List (Entry α)} {row column : Nat}

theorem given_cons (entry : Entry α) (rest : List (Entry α)) (row column : Nat) :
    given (entry :: rest) row column =
      if At row column entry then entry.value :: given rest row column
      else given rest row column := by
  unfold given
  rw [List.filter_cons]
  by_cases here : At row column entry
  · rw [if_pos (decide_eq_true here), if_pos here, List.map_cons]
  · rw [if_neg (by simpa using here), if_neg here]

theorem mem_given {value : α} :
    value ∈ given entries row column ↔ (⟨row, column, value⟩ : Entry α) ∈ entries := by
  simp only [given, List.mem_map, List.mem_filter, decide_eq_true_eq]
  constructor
  · rintro ⟨entry, ⟨listed, rfl, rfl⟩, rfl⟩
    exact listed
  · exact fun listed => ⟨_, ⟨listed, rfl, rfl⟩, rfl⟩

theorem given_ne_nil_iff :
    given entries row column ≠ [] ↔ ∃ entry ∈ entries, entry.row = row ∧ entry.column = column := by
  constructor
  · intro nonempty
    obtain ⟨value, listed⟩ := List.exists_mem_of_ne_nil _ nonempty
    exact ⟨_, mem_given.mp listed, rfl, rfl⟩
  · rintro ⟨entry, listed, rfl, rfl⟩
    exact List.ne_nil_of_mem (mem_given.mpr listed)

theorem eq_iff_of_at {a b : Entry α} (place : At a.row a.column b) : a = b ↔ b.value = a.value := by
  obtain ⟨row, column, value⟩ := a
  obtain ⟨rfl, rfl⟩ := place
  constructor
  · exact fun same => same ▸ rfl
  · rintro rfl
    rfl

theorem ne_of_not_at {a b : Entry α} (elsewhere : ¬At a.row a.column b) : a ≠ b := by
  rintro rfl
  exact elsewhere ⟨rfl, rfl⟩

theorem given_merge_sort (entries : List (Entry α)) (row column : Nat) :
    given (entries.mergeSort notAfter) row column = given entries row column := by
  let here : Entry α → Bool := fun entry => decide (At row column entry)
  have level : Sorted (entries.filter here) := by
    apply List.pairwise_of_forall_mem_list
    intro a first b second
    obtain ⟨rowA, columnA⟩ := of_decide_eq_true (List.mem_filter.mp first).2
    obtain ⟨rowB, columnB⟩ := of_decide_eq_true (List.mem_filter.mp second).2
    simp [notAfter, rowA, rowB, columnA, columnB]
  have kept : (entries.filter here).Sublist ((entries.mergeSort notAfter).filter here) := by
    have both := (List.sublist_mergeSort not_after_trans not_after_total level
      List.filter_sublist).filter here
    simpa only [List.filter_filter, Bool.and_self] using both
  have count := ((List.mergeSort_perm entries notAfter).filter here).length_eq
  exact congrArg (List.map value) (kept.eq_of_length count.symm).symm

end Given

/-- The entries in another order, those of one place in the order in which they were. -/
def KeepsOrder (entries entries' : List (Entry α)) : Prop :=
  ∀ row column, given entries' row column = given entries row column

theorem keeps_order_swap {a b : Entry α} (apart : ¬a.samePlace b = true) (rest : List (Entry α)) :
    KeepsOrder (a :: b :: rest) (b :: a :: rest) := by
  intro row column
  rw [given_cons, given_cons, given_cons, given_cons]
  by_cases first : At row column a
  · have second : ¬At row column b := by
      intro second
      apply apart
      simp [samePlace, first.1, first.2, second.1, second.2]
    rw [if_pos first, if_pos first, if_neg second, if_neg second]
  · rw [if_neg first, if_neg first]

theorem KeepsOrder.forall_mem {entries entries' : List (Entry α)} (same : KeepsOrder entries entries')
    {P : Entry α → Prop} (each : ∀ entry ∈ entries, P entry) : ∀ entry ∈ entries', P entry := by
  intro entry listed
  have value := mem_given.mpr listed
  rw [same] at value
  exact each entry (mem_given.mp value)

/-- Left-to-right sum that starts from the first value. -/
def sumFromFirst [Arithmetic α] : List α → Option α
  | [] => none
  | first :: rest => some (rest.foldl (· + ·) first)

theorem sum_from_first_nil_ne [Arithmetic α] (value : α) : sumFromFirst [] ≠ some value :=
  (Option.some_ne_none value).symm

theorem sum_from_first_some [Arithmetic α] {values : List α} (nonempty : values ≠ []) :
    ∃ sum, sumFromFirst values = some sum := by
  cases values with
  | nil => exact absurd rfl nonempty
  | cons first rest => exact ⟨_, rfl⟩

section Merged

variable [Arithmetic α]

theorem mem_merge_from_iff {current : Entry α} {entries : List (Entry α)}
    (sorted : Sorted (current :: entries)) (merged : Entry α) :
    merged ∈ mergeFrom current entries ↔
      sumFromFirst (given (current :: entries) merged.row merged.column) = some merged.value := by
  induction entries generalizing current with
  | nil =>
      rw [mergeFrom, List.mem_singleton, given_cons]
      by_cases here : At merged.row merged.column current
      · rw [if_pos here, eq_iff_of_at here]
        exact (Option.some.injEq _ _).symm.to_iff
      · rw [if_neg here]
        exact iff_of_false (ne_of_not_at here) (sum_from_first_nil_ne _)
  | cons following rest ih =>
      obtain ⟨least, later⟩ := List.pairwise_cons.mp sorted
      rw [mergeFrom]
      by_cases place : current.samePlace following = true
      · -- both add to the sum of their place, and to no other
        have merging : Sorted ({ current with value := current.value + following.value } :: rest) :=
          List.pairwise_cons.mpr
            ⟨fun entry member => least entry (List.mem_cons_of_mem _ member), later.tail⟩
        have summed : At merged.row merged.column
            { current with value := current.value + following.value } ↔
              At merged.row merged.column current := Iff.rfl
        have together : At merged.row merged.column following ↔
            At merged.row merged.column current := by
          simp only [samePlace, Bool.and_eq_true, beq_iff_eq] at place
          rw [At, At, place.1, place.2]
        rw [if_pos place, ih merging, given_cons, given_cons current, given_cons following]
        simp only [summed, together]
        by_cases here : At merged.row merged.column current
        · rw [if_pos here, if_pos here, if_pos here]
          rfl
        · rw [if_neg here, if_neg here, if_neg here]
      · rw [if_neg place, List.mem_cons, ih later, given_cons current]
        by_cases here : At merged.row merged.column current
        · have nothing : given (following :: rest) merged.row merged.column = [] := by
            by_contra named
            obtain ⟨entry, listed, row, column⟩ := given_ne_nil_iff.mp named
            have strict := earlier_behind sorted place entry listed
            unfold Earlier at strict
            unfold At at here
            omega
          rw [if_pos here, nothing, eq_iff_of_at here, or_iff_left (sum_from_first_nil_ne _)]
          exact (Option.some.injEq _ _).symm.to_iff
        · rw [if_neg here]
          exact or_iff_right (ne_of_not_at here)

theorem mem_merge_iff {entries : List (Entry α)} (sorted : Sorted entries) (merged : Entry α) :
    merged ∈ merge entries ↔
      sumFromFirst (given entries merged.row merged.column) = some merged.value := by
  cases entries with
  | nil => exact iff_of_false List.not_mem_nil (sum_from_first_nil_ne _)
  | cons first rest => exact mem_merge_from_iff sorted merged

end Merged

end Entry

namespace Matrix

section Stored

variable [Arithmetic α] {entries entries' : List (Entry α)}

theorem mem_stored_iff (merged : Entry α) :
    merged ∈ stored entries ↔
      Entry.sumFromFirst (Entry.given entries merged.row merged.column) = some merged.value := by
  rw [stored, Entry.mem_merge_iff (Entry.merge_sort_sorted entries), Entry.given_merge_sort]

theorem stored_congr (same : Entry.KeepsOrder entries entries') : stored entries' = stored entries := by
  apply (stored_earlier entries').eq_of_mem_iff (stored_earlier entries)
  intro merged
  rw [mem_stored_iff, mem_stored_iff, same]

end Stored

def StoredAt (matrix : Matrix α) (row column index : Nat) : Prop :=
  ∃ first last, matrix.rowBounds row = .ok (first, last) ∧ first ≤ index ∧ index < last ∧
    matrix.columnIndices[index]? = some column

structure Compressed [Arithmetic α] (matrix : Matrix α) (entries : List (Entry α)) : Prop where
  pointers : matrix.rowPointers.size = matrix.rows + 1
  start : matrix.rowPointers[0]? = some 0
  ascending : matrix.rowPointers.toList.Pairwise (· ≤ ·)
  finish : matrix.rowPointers[matrix.rows]? = some matrix.values.size
  columns : matrix.columnIndices.size = matrix.values.size
  increasing : ∀ {row column column' index index' : Nat}, matrix.StoredAt row column index →
    matrix.StoredAt row column' index' → index < index' → column < column'
  named : ∀ row column, (∃ index, matrix.StoredAt row column index) ↔
    ∃ entry ∈ entries, entry.row = row ∧ entry.column = column
  once : ∀ {row column index index' : Nat}, matrix.StoredAt row column index →
    matrix.StoredAt row column index' → index = index'
  summed : ∀ {row column index : Nat}, matrix.StoredAt row column index →
    matrix.values[index]? = Entry.sumFromFirst (Entry.given entries row column)

section Assembled

variable [Arithmetic α] {rows columns blockSize : Nat} {diagonal : Array α}
  {entries : List (Entry α)}

theorem row_bounds_iff {row first last : Nat} :
    (ofEntries rows columns blockSize diagonal entries).rowBounds row = .ok (first, last) ↔
      row < rows ∧ first = Entry.before (stored entries) row ∧
        last = Entry.before (stored entries) (row + 1) := by
  unfold rowBounds Storage.fetch
  rw [getElem?_row_pointers, getElem?_row_pointers]
  by_cases inside : row < rows
  · rw [if_pos (by omega), if_pos (by omega)]
    constructor
    · intro found
      cases found
      exact ⟨inside, rfl, rfl⟩
    · rintro ⟨_, rfl, rfl⟩
      rfl
  · rw [if_neg (show ¬row + 1 ≤ rows by omega)]
    refine iff_of_false (fun found => ?_) fun bounds => inside bounds.1
    split at found <;> cases found

theorem stored_at_iff (placed : ∀ entry ∈ entries, entry.row < rows) {row column index : Nat} :
    (ofEntries rows columns blockSize diagonal entries).StoredAt row column index ↔
      ∃ value, (stored entries)[index]? = some ⟨row, column, value⟩ := by
  have sorted := stored_in_rows entries
  constructor
  · rintro ⟨first, last, bounds, after, before, found⟩
    obtain ⟨_, rfl, rfl⟩ := row_bounds_iff.mp bounds
    have most : Entry.before (stored entries) (row + 1) ≤ (stored entries).length :=
      List.countP_le_length
    have inside : index < (stored entries).length := by omega
    have least := (Entry.before_le_iff sorted row inside).mp after
    have next := mt (Entry.before_le_iff sorted (row + 1) inside).mpr (Nat.not_le.mpr before)
    rw [getElem?_column_indices, List.getElem?_eq_getElem inside, Option.map_some,
      Option.some.injEq] at found
    refine ⟨(stored entries)[index].value, ?_⟩
    rw [List.getElem?_eq_getElem inside, Option.some.injEq, ← found]
    have same : (stored entries)[index].row = row := by omega
    rw [← same]
  · rintro ⟨value, found⟩
    obtain ⟨inside, here⟩ := List.getElem?_eq_some_iff.mp found
    obtain ⟨entry, given, rfl, _⟩ := mem_stored (List.mem_of_getElem? found)
    have least := (Entry.before_le_iff sorted entry.row inside).mpr (by rw [here])
    have next := mt (Entry.before_le_iff sorted (entry.row + 1) inside).mp (by rw [here]; simp)
    refine ⟨_, _, row_bounds_iff.mpr ⟨placed entry given, rfl, rfl⟩, least,
      Nat.not_le.mp next, ?_⟩
    rw [getElem?_column_indices, found, Option.map_some]

theorem stored_at_increasing (placed : ∀ entry ∈ entries, entry.row < rows)
    {row column column' index index' : Nat}
    (first : (ofEntries rows columns blockSize diagonal entries).StoredAt row column index)
    (second : (ofEntries rows columns blockSize diagonal entries).StoredAt row column' index')
    (order : index < index') : column < column' := by
  obtain ⟨value, found⟩ := (stored_at_iff placed).mp first
  obtain ⟨value', found'⟩ := (stored_at_iff placed).mp second
  obtain ⟨inside, here⟩ := List.getElem?_eq_some_iff.mp found
  obtain ⟨inside', here'⟩ := List.getElem?_eq_some_iff.mp found'
  have strict := List.pairwise_iff_getElem.mp (stored_earlier entries) index index' inside inside'
    order
  rw [here, here'] at strict
  exact (strict.resolve_left (lt_irrefl row)).2

theorem of_entries_compressed (placed : ∀ entry ∈ entries, entry.row < rows) :
    (ofEntries rows columns blockSize diagonal entries).Compressed entries where
  pointers := by
    rw [row_pointers_eq, List.size_toArray, List.length_map, List.length_range]
    rfl
  start := by
    rw [getElem?_row_pointers, if_pos (Nat.zero_le _)]
    simp [Entry.before]
  ascending := by
    rw [row_pointers_eq]
    apply List.Pairwise.map _ _ List.pairwise_le_range
    intro row row' order
    apply List.countP_mono_left
    intro entry _ earlier
    rw [decide_eq_true_eq] at earlier ⊢
    exact lt_of_lt_of_le earlier order
  finish := by
    have all : Entry.before (stored entries) rows = (stored entries).length := by
      apply List.countP_eq_length.mpr
      intro merged member
      obtain ⟨entry, given, row, _⟩ := mem_stored member
      exact decide_eq_true (row ▸ placed entry given)
    change (ofEntries rows columns blockSize diagonal entries).rowPointers[rows]? = _
    rw [getElem?_row_pointers, if_pos le_rfl, all]
    simp [ofEntries, stored]
  columns := by
    simp [ofEntries]
  increasing := stored_at_increasing placed
  named := by
    intro row column
    constructor
    · rintro ⟨index, held⟩
      obtain ⟨value, found⟩ := (stored_at_iff placed).mp held
      exact mem_stored (List.mem_of_getElem? found)
    · intro named
      obtain ⟨value, sum⟩ := Entry.sum_from_first_some (Entry.given_ne_nil_iff.mpr named)
      have member := (mem_stored_iff ⟨row, column, value⟩).mpr sum
      obtain ⟨index, found⟩ := List.getElem?_of_mem member
      exact ⟨index, (stored_at_iff placed).mpr ⟨value, found⟩⟩
  once := by
    intro row column index index' first second
    rcases lt_trichotomy index index' with before | same | after
    · exact absurd (stored_at_increasing placed first second before) (lt_irrefl _)
    · exact same
    · exact absurd (stored_at_increasing placed second first after) (lt_irrefl _)
  summed := by
    intro row column index held
    obtain ⟨value, found⟩ := (stored_at_iff placed).mp held
    rw [getElem?_values, found, Option.map_some]
    exact ((mem_stored_iff _).mp (List.mem_of_getElem? found)).symm

end Assembled

/-- Assembly accepts exactly what fits. It faults on a diagonal whose length is to be one that no
word holds, and refuses everything else as a broken precondition. It stores each place that is
named once, in its row and by its column, with the sum of its values from left to right; so entries
in another order, those of one place in the order in which they were, have the very same matrix. -/
theorem assemble_compresses [Arithmetic α] (rows columns blockSize : Nat) (diagonal : Array α)
    (entries : List (Entry α)) :
    ((∃ matrix, assemble rows columns blockSize diagonal entries = .ok matrix) ↔
        1 ≤ blockSize ∧ rows ≤ columns ∧ diagonal.size = rows * blockSize * blockSize ∧
          ∀ entry ∈ entries, entry.row < rows ∧ entry.column < columns ∧
            entry.row ≠ entry.column) ∧
      (assemble rows columns blockSize diagonal entries = .error (.faulted .overflow) ↔
        1 ≤ blockSize ∧ rows ≤ columns ∧ diagonal.size ≠ rows * blockSize * blockSize ∧
          Word.limit ≤ rows * blockSize * blockSize) ∧
      (∀ failure, assemble rows columns blockSize diagonal entries = .error failure →
        failure = .faulted .overflow ∨
          ∃ refusal, failure = .refused refusal ∧ refusal.kind = .precondition) ∧
      ∀ matrix, assemble rows columns blockSize diagonal entries = .ok matrix →
        (matrix.rows = rows ∧ matrix.columns = columns ∧ matrix.blockSize = blockSize ∧
          matrix.diagonal = diagonal ∧ matrix.halo = none) ∧
        matrix.Compressed entries ∧
        ∀ entries', Entry.KeepsOrder entries entries' →
          assemble rows columns blockSize diagonal entries' = .ok matrix := by
  refine ⟨⟨?_, ?_⟩, ⟨?_, ?_⟩, fun failure failed => ?_, ?_⟩
  · rintro ⟨matrix, assembled⟩
    obtain ⟨positive, covers, size, placed, _⟩ := assemble_ok assembled
    exact ⟨positive, covers, size, placed⟩
  · rintro ⟨positive, covers, size, placed⟩
    exact ⟨_, assemble_of_placed positive covers size placed⟩
  · intro faulted
    rcases assemble_error faulted with ⟨_, beyond⟩ | ⟨refusal, refused, _⟩
    · exact beyond
    · cases refused
  · rintro ⟨positive, covers, other, beyond⟩
    exact assemble_overflows positive covers other beyond
  · exact (assemble_error failed).imp_left And.left
  · intro matrix assembled
    obtain ⟨positive, covers, size, placed, rfl⟩ := assemble_ok assembled
    refine ⟨⟨rfl, rfl, rfl, rfl, rfl⟩, of_entries_compressed fun entry listed =>
      (placed entry listed).1, fun entries' same => ?_⟩
    have merged : Entry.merge (entries'.mergeSort Entry.notAfter) =
        Entry.merge (entries.mergeSort Entry.notAfter) := stored_congr same
    rw [assemble_of_placed positive covers size (same.forall_mem placed), ofEntries,
      merged]
    rfl

/-- Three values for one place, below an empty row and apart from a ghost column: the second is
lost in the first, which the third takes away. -/
theorem scattered_place_assembled :
    let entries : List (Entry Float) := [⟨2, 0, 1e16⟩, ⟨0, 3, 5⟩, ⟨2, 0, 1⟩, ⟨2, 0, -1e16⟩]
    let entries' : List (Entry Float) := [⟨0, 3, 5⟩, ⟨2, 0, 1e16⟩, ⟨2, 0, 1⟩, ⟨2, 0, -1e16⟩]
    ∃ matrix, assemble 3 4 1 #[1, 1, 1] entries = .ok matrix ∧ matrix.Compressed entries ∧
      (∃ index, matrix.StoredAt 2 0 index ∧ matrix.values[index]? = some 0) ∧
      assemble 3 4 1 #[1, 1, 1] entries' = .ok matrix := by
  intro entries entries'
  obtain ⟨accepts, _, _, shape⟩ := assemble_compresses 3 4 1 #[1, 1, 1] entries
  obtain ⟨matrix, assembled⟩ := accepts.mpr ⟨by decide, by decide, by decide, by decide⟩
  obtain ⟨_, compressed, reordered⟩ := shape matrix assembled
  obtain ⟨index, held⟩ := (compressed.named 2 0).mpr ⟨_, List.mem_cons_self, rfl, rfl⟩
  have sum : Entry.sumFromFirst (Entry.given entries 2 0) = some 0 := by
    decide +kernel
  exact ⟨matrix, assembled, compressed, ⟨index, held, (compressed.summed held).trans sum⟩,
    reordered entries' (Entry.keeps_order_swap (by decide) _)⟩

/-- One block of more values than a word can count is not refused for the lack of them. -/
theorem uncountable_block_faults :
    assemble 1 1 (2 ^ 32) (#[] : Array Float) [] = .error (.faulted .overflow) ∧
      ¬∃ refusal, assemble 1 1 (2 ^ 32) (#[] : Array Float) [] = .error (.refused refusal) := by
  have faulted : assemble 1 1 (2 ^ 32) (#[] : Array Float) [] = .error (.faulted .overflow) :=
    assemble_overflows (by decide) (by decide) (by decide) (by decide)
  refine ⟨faulted, ?_⟩
  rintro ⟨refusal, refused⟩
  rw [faulted] at refused
  cases refused

end Matrix
end Relaxation

import Mathlib
import Relaxation.Proofs.Coefficients
import Relaxation.Proofs.CompressedRows
import Relaxation.Proofs.Residual

/-!
Assembly and product in exact arithmetic. Sorting, merging and compressing leave nothing behind:
the product is that of the dense operator which the diagonal blocks and the entries stand for,
every entry added once, however often and in whatever order places are named.
-/

namespace Relaxation

namespace Entry

section Order

variable {entries entries' : List (Entry ℚ)}

theorem sum_from_first_eq (values : List ℚ) :
    sumFromFirst values = if values = [] then none else some values.sum := by
  cases values with
  | nil => rfl
  | cons first rest =>
      have folded := Exact.foldl_sum (fun value => value) rest first
      rw [List.map_id'] at folded
      rw [if_neg (List.cons_ne_nil first rest), List.sum_cons, ← folded]
      rfl

theorem given_perm (same : entries.Perm entries') (row column : Nat) :
    (given entries row column).Perm (given entries' row column) :=
  (same.filter _).map _

theorem sum_given_perm (same : entries.Perm entries') (row column : Nat) :
    sumFromFirst (given entries' row column) = sumFromFirst (given entries row column) := by
  have values := given_perm same row column
  have empty : given entries' row column = [] ↔ given entries row column = [] :=
    ⟨fun none => (none ▸ values).eq_nil, fun none => (none ▸ values.symm).eq_nil⟩
  rw [sum_from_first_eq, sum_from_first_eq, values.sum_eq]
  simp only [empty]

end Order

def rowSum (entries : List (Entry ℚ)) (row : Nat) (taken : Nat → ℚ) : ℚ :=
  (entries.map fun entry => if entry.row = row then entry.value * taken entry.column else 0).sum

theorem sum_value_at {entries : List (Entry ℚ)} {columns : Nat}
    (inside : ∀ entry ∈ entries, entry.column < columns) (row : Nat) (taken : Nat → ℚ) :
    ∑ column ∈ Finset.range columns, valueAt entries row column * taken column =
      rowSum entries row taken := by
  induction entries with
  | nil => simp [valueAt, rowSum]
  | cons entry rest ih =>
      have later := ih fun other listed => inside other (List.mem_cons_of_mem entry listed)
      have here : ∑ column ∈ Finset.range columns,
          (if entry.row = row ∧ entry.column = column then entry.value else 0) * taken column =
            if entry.row = row then entry.value * taken entry.column else 0 := by
        by_cases mine : entry.row = row
        · have listed := Finset.mem_range.mpr (inside entry List.mem_cons_self)
          simp [mine, ite_mul, Finset.sum_ite_eq, Finset.mem_range.mp listed]
        · simp [mine]
      simp only [value_at_cons, add_mul, Finset.sum_add_distrib, later, here]
      rw [rowSum, rowSum, List.map_cons, List.sum_cons]

end Entry

namespace Matrix

/-- The dense operator of diagonal blocks and entries, at one position of the product and one of
the vector. An entry couples equal components only. -/
def denseCoefficient (blockSize : Nat) (diagonal : Array ℚ) (entries : List (Entry ℚ))
    (i l : Nat) : ℚ :=
  (if l / blockSize = i / blockSize then
      diagonal.getD (i / blockSize * blockSize * blockSize + i % blockSize * blockSize +
        l % blockSize) 0
    else 0) +
    if l % blockSize = i % blockSize then
      Entry.valueAt entries (i / blockSize) (l / blockSize)
    else 0

/-- `image` is what the diagonal blocks and the entries make of `x`: row by row, and as one dense
operator. -/
structure DenseImage (rows columns blockSize : Nat) (diagonal : Array ℚ)
    (entries : List (Entry ℚ)) (x image : Array ℚ) : Prop where
  size : image.size = rows * blockSize
  sums : ∀ row j, row < rows → j < blockSize → image[row * blockSize + j]? = some
    (∑ k ∈ Finset.range blockSize,
        diagonal.getD (row * blockSize * blockSize + j * blockSize + k) 0 *
          x.getD (row * blockSize + k) 0 +
      (entries.map fun entry =>
        if entry.row = row then entry.value * x.getD (entry.column * blockSize + j) 0 else 0).sum)
  dense : ∀ i, i < rows * blockSize → image[i]? = some
    (∑ l ∈ Finset.range (columns * blockSize),
      denseCoefficient blockSize diagonal entries i l * x.getD l 0)

def combine (a b : ℚ) (x y : Array ℚ) : Array ℚ :=
  x.zipWith (fun left right => a * left + b * right) y

theorem getElem?_combine (a b : ℚ) {x y : Array ℚ} {i : Nat} {left right : ℚ}
    (first : x[i]? = some left) (second : y[i]? = some right) :
    (combine a b x y)[i]? = some (a * left + b * right) := by
  rw [combine, Array.getElem?_zipWith, first, second]

theorem getD_combine (a b : ℚ) {x y : Array ℚ} (same : x.size = y.size) (i : Nat) :
    (combine a b x y).getD i 0 = a * x.getD i 0 + b * y.getD i 0 := by
  by_cases inside : i < x.size
  · have found := getElem?_combine a b (Array.getElem?_eq_getElem inside)
      (Array.getElem?_eq_getElem (same ▸ inside))
    simp only [Array.getD_eq_getD_getElem?, found, Array.getElem?_eq_getElem inside,
      Array.getElem?_eq_getElem (same ▸ inside : i < y.size), Option.getD_some]
  · have beyond : ¬i < y.size := same ▸ inside
    simp [combine, Array.getD_eq_getD_getElem?, inside, beyond]

section Assembled

variable {rows columns blockSize : Nat} {diagonal x : Array ℚ} {entries entries' : List (Entry ℚ)}
  {matrix : Matrix ℚ}

theorem stored_of_perm (same : entries.Perm entries') : stored entries' = stored entries := by
  apply (stored_earlier entries').eq_of_mem_iff (stored_earlier entries)
  intro merged
  rw [mem_stored_iff, mem_stored_iff, Entry.sum_given_perm same]

theorem assemble_perm (assembled : assemble rows columns blockSize diagonal entries = .ok matrix)
    (same : entries.Perm entries') :
    assemble rows columns blockSize diagonal entries' = .ok matrix := by
  obtain ⟨positive, covers, size, placed, rfl⟩ := assemble_ok assembled
  have merged : Entry.merge (entries'.mergeSort Entry.notAfter) =
      Entry.merge (entries.mergeSort Entry.notAfter) := stored_of_perm same
  rw [assemble_of_placed positive covers size fun entry listed =>
    placed entry (same.mem_iff.mpr listed), ofEntries, merged]
  rfl

theorem coupling_of_assemble
    (assembled : assemble rows columns blockSize diagonal entries = .ok matrix) (x : Array ℚ)
    {row : Nat} (inside : row < rows) (j : Nat) :
    matrix.coupling x row j =
      Entry.rowSum entries row fun column => x.getD (column * blockSize + j) 0 := by
  have sound := sound_of_assemble assembled
  obtain ⟨_, _, _, placed, rfl⟩ := assemble_ok assembled
  rw [coupling_eq_sum sound x inside, ← Entry.sum_value_at fun entry listed =>
    (placed entry listed).2.1]
  apply Finset.sum_congr rfl
  intro column _
  rw [off_diagonal_of_entries inside]
  rfl

theorem dense_coefficient_at {row j column k : Nat} (bound : j < blockSize) (small : k < blockSize) :
    denseCoefficient blockSize diagonal entries (row * blockSize + j) (column * blockSize + k) =
      (if column = row then
        diagonal.getD (row * blockSize * blockSize + j * blockSize + k) 0 else 0) +
      if k = j then Entry.valueAt entries row column else 0 := by
  obtain ⟨block, component⟩ := position_split row bound
  obtain ⟨block', component'⟩ := position_split column small
  rw [denseCoefficient, block, component, block', component']

theorem sum_dense (inside : ∀ entry ∈ entries, entry.column < columns) {row j : Nat}
    (owned : row < columns) (bound : j < blockSize) (x : Array ℚ) :
    ∑ l ∈ Finset.range (columns * blockSize),
        denseCoefficient blockSize diagonal entries (row * blockSize + j) l * x.getD l 0 =
      ∑ k ∈ Finset.range blockSize,
          diagonal.getD (row * blockSize * blockSize + j * blockSize + k) 0 *
            x.getD (row * blockSize + k) 0 +
        Entry.rowSum entries row fun column => x.getD (column * blockSize + j) 0 := by
  -- a block column has the diagonal block if it is the row's own, and one entry per component
  have each : ∀ column ∈ Finset.range columns, ∑ k ∈ Finset.range blockSize,
      denseCoefficient blockSize diagonal entries (row * blockSize + j)
          (column * blockSize + k) * x.getD (column * blockSize + k) 0 =
        (if column = row then ∑ k ∈ Finset.range blockSize,
          diagonal.getD (row * blockSize * blockSize + j * blockSize + k) 0 *
            x.getD (column * blockSize + k) 0 else 0) +
        Entry.valueAt entries row column * x.getD (column * blockSize + j) 0 := by
    intro column _
    calc ∑ k ∈ Finset.range blockSize,
          denseCoefficient blockSize diagonal entries (row * blockSize + j)
            (column * blockSize + k) * x.getD (column * blockSize + k) 0
        = ∑ k ∈ Finset.range blockSize, ((if column = row then
              diagonal.getD (row * blockSize * blockSize + j * blockSize + k) 0 *
                x.getD (column * blockSize + k) 0 else 0) +
            if k = j then Entry.valueAt entries row column * x.getD (column * blockSize + k) 0
              else 0) := by
          apply Finset.sum_congr rfl
          intro k member
          rw [dense_coefficient_at bound (Finset.mem_range.mp member), add_mul, ite_zero_mul,
            ite_zero_mul]
      _ = _ := by
          rw [Finset.sum_add_distrib, Finset.sum_ite_eq', if_pos (Finset.mem_range.mpr bound)]
          congr 1
          by_cases same : column = row
          · simp only [if_pos same]
          · simp only [if_neg same, Finset.sum_const_zero]
  rw [← Exact.sum_rows, Finset.sum_congr rfl each, Finset.sum_add_distrib, Finset.sum_ite_eq',
    if_pos (Finset.mem_range.mpr owned), Entry.sum_value_at inside]

theorem dense_image_of_assemble
    (assembled : assemble rows columns blockSize diagonal entries = .ok matrix)
    (size : x.size = columns * blockSize) :
    ∃ image, matrix.product x = .ok image ∧
      DenseImage rows columns blockSize diagonal entries x image := by
  have sound := sound_of_assemble assembled
  obtain ⟨positive, covers, _, placed, same⟩ := assemble_ok assembled
  have shape : matrix.rows = rows ∧ matrix.columns = columns ∧ matrix.blockSize = blockSize ∧
      matrix.diagonal = diagonal := by
    rw [same]
    exact ⟨rfl, rfl, rfl, rfl⟩
  obtain ⟨rowCount, columnCount, width, blocks⟩ := shape
  obtain ⟨image, ran, length, found⟩ := product_eq sound (x := x) (by rw [size, columnCount, width])
  rw [rowCount, width] at length found
  have sums : ∀ row j, row < rows → j < blockSize → image[row * blockSize + j]? = some
      (∑ k ∈ Finset.range blockSize,
          diagonal.getD (row * blockSize * blockSize + j * blockSize + k) 0 *
            x.getD (row * blockSize + k) 0 +
        Entry.rowSum entries row fun column => x.getD (column * blockSize + j) 0) := by
    intro row j inside bound
    have fits := Kernel.row_end_le blockSize inside
    have here := (found row j inside bound).trans (add_comm _ _)
    rw [coupling_of_assemble assembled x inside, own_product_eq, width, blocks] at here
    rw [Array.getElem?_eq_getElem (by omega), Option.some.injEq]
    rw [Array.getD_eq_getD_getElem?, Array.getElem?_eq_getElem (by omega), Option.getD_some] at here
    simp only [Kernel.coefficient, ← Nat.mul_assoc, ← Nat.add_assoc] at here
    exact here
  refine ⟨image, ran, length, sums, fun i inside => ?_⟩
  have bound := Nat.mod_lt i positive
  have owned : i / blockSize < rows := (Nat.div_lt_iff_lt_mul positive).mpr inside
  have here := sums (i / blockSize) (i % blockSize) owned bound
  rw [← sum_dense (fun entry listed => (placed entry listed).2.1) (by omega) bound,
    Nat.div_add_mod'] at here
  exact here

theorem size_of_product {image : Array ℚ} (ran : matrix.product x = .ok image) :
    x.size = matrix.columns * matrix.blockSize := by
  by_contra other
  unfold product at ran
  rw [if_pos other] at ran
  cases ran

theorem product_combine (assembled : assemble rows columns blockSize diagonal entries = .ok matrix)
    {y image image' : Array ℚ} (a b : ℚ) (first : matrix.product x = .ok image)
    (second : matrix.product y = .ok image') :
    matrix.product (combine a b x y) = .ok (combine a b image image') := by
  have shape : matrix.columns * matrix.blockSize = columns * blockSize := by
    rw [(assemble_ok assembled).2.2.2.2]
    rfl
  have size := (size_of_product first).trans shape
  have size' := (size_of_product second).trans shape
  obtain ⟨_, ran, dense⟩ := dense_image_of_assemble assembled size
  obtain rfl : _ = image := Except.ok.inj (ran.symm.trans first)
  obtain ⟨_, ran', dense'⟩ := dense_image_of_assemble assembled size'
  obtain rfl : _ = image' := Except.ok.inj (ran'.symm.trans second)
  have same := size.trans size'.symm
  obtain ⟨image'', ran'', dense''⟩ := dense_image_of_assemble assembled
    (show (combine a b x y).size = columns * blockSize by simp [combine, size, size'])
  rw [ran'']
  congr 1
  apply Array.ext_getElem?
  intro i
  by_cases inside : i < rows * blockSize
  · rw [dense''.dense i inside, getElem?_combine a b (dense.dense i inside) (dense'.dense i inside),
      Finset.mul_sum, Finset.mul_sum, ← Finset.sum_add_distrib]
    congr 1
    apply Finset.sum_congr rfl
    intro l _
    rw [getD_combine a b same]
    ring
  · rw [Array.getElem?_eq_none (by rw [dense''.size]; omega),
      Array.getElem?_eq_none (by simp [combine, dense.size, dense'.size]; omega)]

/-- In exact arithmetic a matrix that is assembled multiplies as the dense operator of its diagonal
blocks and its entries. So the product is linear, and entries in another order have the same. -/
theorem assembled_product_is_dense
    (assembled : assemble rows columns blockSize diagonal entries = .ok matrix) :
    (∀ x : Array ℚ, x.size = columns * blockSize → ∃ image, matrix.product x = .ok image ∧
        DenseImage rows columns blockSize diagonal entries x image) ∧
      (∀ (a b : ℚ) (x y image image' : Array ℚ), matrix.product x = .ok image →
        matrix.product y = .ok image' →
          matrix.product (combine a b x y) = .ok (combine a b image image')) ∧
      ∀ entries', entries.Perm entries' →
        assemble rows columns blockSize diagonal entries' = .ok matrix :=
  ⟨fun _ size => dense_image_of_assemble assembled size,
    fun a b _ _ _ _ first second => product_combine assembled a b first second,
    fun _ same => assemble_perm assembled same⟩

end Assembled

/-- A place that is named twice, and one in a ghost column, in blocks of two. -/
theorem repeated_place_product :
    let entries : List (Entry ℚ) := [⟨1, 0, 2⟩, ⟨0, 2, 3⟩, ⟨1, 0, -5⟩]
    let x : Array ℚ := #[1, 1, 2, 0, 1, 3]
    ∃ matrix image, assemble 2 3 2 #[1, 2, 3, 4, 5, 6, 7, 8] entries = .ok matrix ∧
      matrix.product x = .ok image ∧ image[1]? = some 16 ∧ image[2]? = some 7 ∧
      matrix.product (combine 2 1 x x) = .ok (combine 2 1 image image) ∧
      assemble 2 3 2 #[1, 2, 3, 4, 5, 6, 7, 8] entries.reverse = .ok matrix := by
  intro entries x
  have assembled : assemble 2 3 2 #[1, 2, 3, 4, 5, 6, 7, 8] entries =
      .ok (ofEntries 2 3 2 #[1, 2, 3, 4, 5, 6, 7, 8] entries) :=
    assemble_of_placed (by decide) (by decide) (by decide) (by decide)
  obtain ⟨products, linear, order⟩ := assembled_product_is_dense assembled
  obtain ⟨image, ran, dense⟩ := products x rfl
  refine ⟨_, image, assembled, ran, ?_, ?_, linear 2 1 x x image image ran ran,
    order _ entries.reverse_perm.symm⟩
  · rw [dense.sums 0 1 (by decide) (by decide)]
    norm_num [Finset.sum_range_succ, entries, x]
  · rw [dense.sums 1 0 (by decide) (by decide)]
    norm_num [Finset.sum_range_succ, entries, x]

end Matrix
end Relaxation

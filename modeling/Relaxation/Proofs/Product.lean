import Relaxation.Matrix
import Relaxation.Proofs.InverseDiagonal

/-!
The off-diagonal product of a matrix whose row pointers and columns stay in range: it
never faults, it depends on the vector's values up to the last column, and it changes
the owned rows of its output and nothing else.
-/

namespace Relaxation.Matrix

variable {α : Type}

structure Sound (matrix : Matrix α) : Prop where
  positive : 0 < matrix.blockSize
  covers : matrix.rows ≤ matrix.columns
  diagonal : matrix.diagonal.size = matrix.rows * matrix.blockSize * matrix.blockSize
  pointers : matrix.rowPointers.size = matrix.rows + 1
  bounded : ∀ row, row < matrix.rows → matrix.rowPointers.getD (row + 1) 0 ≤ matrix.values.size
  listed : matrix.columnIndices.size = matrix.values.size
  inside : ∀ column ∈ matrix.columnIndices, column < matrix.columns

theorem Sound.with_halo {matrix : Matrix α} (sound : matrix.Sound) (halo : Option Halo) :
    ({ matrix with halo := halo } : Matrix α).Sound :=
  ⟨sound.positive, sound.covers, sound.diagonal, sound.pointers, sound.bounded, sound.listed,
    sound.inside⟩

variable [Arithmetic α]

def coupling (matrix : Matrix α) (x : Array α) (row component : Nat) : α :=
  let first := matrix.rowPointers.getD row 0
  let last := matrix.rowPointers.getD (row + 1) 0
  (List.range' first (last - first)).foldl
    (fun sum index => sum + matrix.values.getD index 0 *
      x.getD (matrix.columnIndices.getD index 0 * matrix.blockSize + component) 0) 0

def couplings (matrix : Matrix α) (x : Array α) : List α :=
  (List.range matrix.rows).flatMap fun row =>
    (List.range matrix.blockSize).map (matrix.coupling x row)

section Couplings

variable {matrix : Matrix α} (sound : matrix.Sound)

omit [Arithmetic α] in
include sound in
theorem column_lt {index : Nat} (listed : index < matrix.values.size) :
    matrix.columnIndices.getD index 0 < matrix.columns := by
  have within : index < matrix.columnIndices.size := sound.listed ▸ listed
  have found : matrix.columnIndices.getD index 0 = matrix.columnIndices[index] := by
    simp [within]
  rw [found]
  exact sound.inside _ (Array.getElem_mem within)

omit [Arithmetic α] in
include sound in
theorem row_bounds_eq {row : Nat} (inside : row < matrix.rows) :
    matrix.rowBounds row =
      .ok (matrix.rowPointers.getD row 0, matrix.rowPointers.getD (row + 1) 0) := by
  have pointers := sound.pointers
  unfold rowBounds
  rw [Storage.fetch_getD (by omega), Storage.fetch_getD (by omega)]
  rfl

include sound in
theorem component_product_eq {x : Array α} {row component : Nat} (inside : row < matrix.rows)
    (bound : component < matrix.blockSize) (long : matrix.columns * matrix.blockSize ≤ x.size) :
    matrix.componentProduct x (matrix.rowPointers.getD row 0)
      (matrix.rowPointers.getD (row + 1) 0) component = .ok (matrix.coupling x row component) := by
  apply foldlM_ok
  intro index member sum
  have last := sound.bounded row inside
  have range := List.mem_range'_1.mp member
  have here : index < matrix.values.size := by omega
  have column := Kernel.row_end_le matrix.blockSize (column_lt sound here)
  have position : matrix.columnIndices.getD index 0 * matrix.blockSize + component < x.size := by
    omega
  rw [Storage.fetch_getD here, Storage.fetch_getD (sound.listed ▸ here)]
  simp only [bind, Except.bind, Storage.fetch_getD position]
  rfl

include sound in
theorem row_product_eq {x : Array α} {row : Nat} (inside : row < matrix.rows)
    (long : matrix.columns * matrix.blockSize ≤ x.size) :
    matrix.rowProduct x row =
      ((List.range matrix.blockSize).map (matrix.coupling x row), .ok ()) := by
  unfold rowProduct
  rw [row_bounds_eq sound inside]
  apply Fault.map_until_ok
  intro component member
  exact component_product_eq sound inside (List.mem_range.mp member) long

omit [Arithmetic α] in
theorem store_rows_eq (blockSize first : Nat) (products : List (List α)) (y : Array α)
    (uniform : ∀ components ∈ products, components.length = blockSize) :
    storeRows blockSize first products y = Storage.overwrite y (first * blockSize) products.flatten := by
  induction products generalizing first y with
  | nil => rfl
  | cons components rest ih =>
      have length := uniform components List.mem_cons_self
      have later := ih (first + 1) (Storage.overwrite y (first * blockSize) components)
        fun other member => uniform other (List.mem_cons_of_mem components member)
      rw [List.flatten_cons, Storage.overwrite_append, length, ← Nat.succ_mul, ← later]
      rfl

omit [Arithmetic α] in
theorem size_store_rows (blockSize first : Nat) (products : List (List α)) (y : Array α) :
    (storeRows blockSize first products y).size = y.size := by
  induction products generalizing first y with
  | nil => rfl
  | cons components rest ih =>
      exact (ih (first + 1) _).trans (Storage.size_overwrite ..)

/-- A product may fault, but its output is as long as before. -/
theorem size_off_diagonal_product (matrix : Matrix α) (x y : Array α) :
    (matrix.offDiagonalProduct x y).2.size = y.size := by
  unfold offDiagonalProduct
  split
  · rfl
  · exact size_store_rows ..

include sound in
theorem off_diagonal_product_eq {x y : Array α}
    (long : matrix.columns * matrix.blockSize ≤ x.size)
    (fits : matrix.rows * matrix.blockSize ≤ y.size) :
    matrix.offDiagonalProduct x y = (.ok (), Storage.overwrite y 0 (matrix.couplings x)) := by
  have checked : matrix.checkVectors x y = .ok () := by
    unfold checkVectors
    rw [if_neg (Nat.not_lt.mpr long), if_neg (Nat.not_lt.mpr fits),
      if_neg (Nat.ne_of_gt sound.positive)]
    rfl
  have rows : (List.range matrix.rows).map (matrix.rowProduct x) =
      (List.range matrix.rows).map fun row =>
        ((List.range matrix.blockSize).map (matrix.coupling x row), .ok ()) := by
    apply List.map_congr_left
    intro row member
    exact row_product_eq sound (List.mem_range.mp member) long
  unfold offDiagonalProduct
  rw [checked]
  dsimp only
  have outcomes : ∀ rows : List Nat, (rows.map fun row =>
      ((List.range matrix.blockSize).map (matrix.coupling x row),
        (.ok () : Except Fault Unit))).forM Prod.snd = .ok () := by
    intro rows
    induction rows with
    | nil => rfl
    | cons row rest ih =>
        rw [List.map_cons]
        exact ih
  rw [rows, outcomes, store_rows_eq, Nat.zero_mul]
  · simp [couplings, List.flatMap_def, Function.comp_def]
  · intro components member
    simp only [List.map_map, List.mem_map, Function.comp_apply] at member
    obtain ⟨row, _, rfl⟩ := member
    simp

theorem getElem?_couplings (matrix : Matrix α) (x : Array α) {row component : Nat}
    (inside : row < matrix.rows) (bound : component < matrix.blockSize) :
    (matrix.couplings x)[row * matrix.blockSize + component]? =
      some (matrix.coupling x row component) := by
  refine (getElem?_flatMap_uniform _ matrix.blockSize matrix.rows (fun t _ => by simp) inside
    bound).trans ?_
  simp [bound]

theorem length_couplings (matrix : Matrix α) (x : Array α) :
    (matrix.couplings x).length = matrix.rows * matrix.blockSize :=
  length_flatMap_uniform _ matrix.blockSize matrix.rows fun t _ => by simp

include sound in
theorem coupling_congr {x x' : Array α} {row component : Nat} (inside : row < matrix.rows)
    (bound : component < matrix.blockSize)
    (same : ∀ index, index < matrix.columns * matrix.blockSize → x.getD index 0 = x'.getD index 0) :
    matrix.coupling x row component = matrix.coupling x' row component := by
  unfold coupling
  dsimp only
  apply List.foldl_ext
  intro sum index member
  have last := sound.bounded row inside
  have range := List.mem_range'_1.mp member
  have here : index < matrix.values.size := by omega
  have column := Kernel.row_end_le matrix.blockSize (column_lt sound here)
  rw [same _ (by omega)]

include sound in
theorem couplings_congr {x x' : Array α}
    (same : ∀ index, index < matrix.columns * matrix.blockSize → x.getD index 0 = x'.getD index 0) :
    matrix.couplings x = matrix.couplings x' := by
  unfold couplings
  apply List.flatMap_congr
  intro row member
  apply List.map_congr_left
  intro component bound
  exact coupling_congr sound (List.mem_range.mp member) (List.mem_range.mp bound) same

end Couplings

section Full

variable {matrix : Matrix α} (sound : matrix.Sound)

def ownProduct (matrix : Matrix α) (x : Array α) (row component : Nat) : α :=
  Fin.foldl matrix.blockSize (fun sum k => sum +
    matrix.diagonal.getD (row * (matrix.blockSize * matrix.blockSize) +
      (component * matrix.blockSize + k.val)) 0 * x.getD (row * matrix.blockSize + k.val) 0) 0

include sound in
theorem block_product_eq {x : Array α} {row : Nat} (inside : row < matrix.rows)
    (long : matrix.columns * matrix.blockSize ≤ x.size) :
    matrix.blockProduct x row =
      .ok ((List.range matrix.blockSize).map (matrix.ownProduct x row)) := by
  have block := Kernel.row_end_le (matrix.blockSize * matrix.blockSize) inside
  have own := Kernel.row_end_le matrix.blockSize inside
  have covers := Nat.mul_le_mul_right matrix.blockSize sound.covers
  have stored := sound.diagonal
  rw [Nat.mul_assoc] at stored
  unfold blockProduct diagonalBlock Block.read
  rw [Storage.span_of_le (by omega), Storage.span_of_le (by omega)]
  refine congrArg Except.ok ?_
  rw [← List.map_coe_finRange_eq_range, List.map_map]
  apply List.map_congr_left
  intro j _
  simp only [Block.window_stored, Block.entry_stored, Storage.window_getD]
  rfl

include sound in
theorem product_eq {x : Array α} (size : x.size = matrix.columns * matrix.blockSize) :
    ∃ full, matrix.product x = .ok full ∧ full.size = matrix.rows * matrix.blockSize ∧
      ∀ row component, row < matrix.rows → component < matrix.blockSize →
        full.getD (row * matrix.blockSize + component) 0 =
          matrix.coupling x row component + matrix.ownProduct x row component := by
  let own := (List.range matrix.rows).flatMap fun row =>
    (List.range matrix.blockSize).map (matrix.ownProduct x row)
  let zeros : Array α := Array.replicate (matrix.rows * matrix.blockSize) 0
  have zerosSize : zeros.size = matrix.rows * matrix.blockSize := Array.size_replicate
  have blocks : (List.range matrix.rows).mapM (matrix.blockProduct x) =
      .ok ((List.range matrix.rows).map fun row =>
        (List.range matrix.blockSize).map (matrix.ownProduct x row)) :=
    mapM_of_ok fun row member =>
      block_product_eq sound (List.mem_range.mp member) (le_of_eq size.symm)
  have ownLength : own.length = matrix.rows * matrix.blockSize :=
    length_flatMap_uniform _ matrix.blockSize matrix.rows fun t _ => by simp
  -- the blocks' part is added to what the other entries left in a vector of zeros
  refine ⟨(Storage.overwrite zeros 0 (matrix.couplings x)).zipWith (· + ·) own.toArray, ?_, ?_,
    fun row component inside bound => ?_⟩
  · unfold product
    rw [if_neg (not_not.mpr size), blocks,
      off_diagonal_product_eq sound (le_of_eq size.symm) (le_of_eq zerosSize.symm)]
    rfl
  · simp [ownLength, zerosSize]
  · have fits := Kernel.row_end_le matrix.blockSize inside
    have coupled : (Storage.overwrite zeros 0
        (matrix.couplings x))[row * matrix.blockSize + component]? =
        some (matrix.coupling x row component) := by
      rw [Storage.getElem?_overwrite_front zeros (by rw [length_couplings]; omega)
        (by rw [length_couplings]; omega), getElem?_couplings matrix x inside bound]
    have mine : own[row * matrix.blockSize + component]? =
        some (matrix.ownProduct x row component) := by
      refine (getElem?_flatMap_uniform _ matrix.blockSize matrix.rows (fun t _ => by simp) inside
        bound).trans ?_
      simp [bound]
    rw [Array.getD_eq_getD_getElem?, Array.getElem?_zipWith, coupled, List.getElem?_toArray, mine]
    rfl

end Full

end Relaxation.Matrix

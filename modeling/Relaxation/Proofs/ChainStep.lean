import Relaxation.Proofs.ChainRows
import Relaxation.Proofs.Standing

/-!
One iteration on a part of a chain. From its own values and the boundary values of its
neighbors a rank computes what the whole chain would have in the rank's rows.
-/

namespace Relaxation

variable {α μ : Type} [Arithmetic α]

namespace Solver

variable {matrix : Matrix α} {sources : Sources α} {x : Array α}

theorem scalar_row_update (one : matrix.blockSize = 1)
    (covered : Kernel.scalar.Covered matrix.rows sources) (long : matrix.rows ≤ x.size)
    {i : Nat} (inside : i < matrix.rows) :
    Kernel.scalar.rowUpdate sources (matrix.couplings x).toArray x i =
      Kernel.scalarUpdate (sources.diagonal.getD i 0) (sources.inverse.getD i 0)
        (sources.rhs.getD i 0) (matrix.coupling x i 0) (x.getD i 0) := by
  have length : (matrix.couplings x).toArray.size = matrix.rows := by
    rw [List.size_toArray, Matrix.length_couplings, one, Nat.mul_one]
  have product : (matrix.couplings x).toArray[i]? = some (matrix.coupling x i 0) := by
    have found := Matrix.getElem?_couplings matrix x inside (show 0 < matrix.blockSize by omega)
    rwa [one, Nat.mul_one, Nat.add_zero, ← List.getElem?_toArray] at found
  have diagonalLong := covered.diagonal
  have inverseLong := covered.inverse
  have rhsLong := covered.rhs
  simp only [Kernel.blockSize, Nat.mul_one, Kernel.inverseLength] at diagonalLong inverseLong rhsLong
  have ran := Kernel.scalar_update_eq (show i < sources.diagonal.size by omega)
    (show i < sources.inverse.size by omega) (show i < sources.rhs.size by omega)
    (show i < (matrix.couplings x).toArray.size by omega) (show i < x.size by omega)
  have coupled : (matrix.couplings x).toArray[i] = matrix.coupling x i 0 := by
    rw [Array.getElem?_eq_getElem (by omega)] at product
    exact Option.some.inj product
  rw [coupled] at ran
  simp only [Kernel.rowUpdate, ran]
  simp [show i < sources.diagonal.size by omega, show i < sources.inverse.size by omega,
    show i < sources.rhs.size by omega, show i < x.size by omega]

theorem getElem?_next_scalar (one : matrix.blockSize = 1)
    (covered : Kernel.scalar.Covered matrix.rows sources) (long : matrix.rows ≤ x.size)
    {i : Nat} (inside : i < matrix.rows) :
    (next matrix .scalar sources x)[i]? =
      (Kernel.scalar.rowUpdate sources (matrix.couplings x).toArray x i).values[0]? := by
  have found := getElem?_flatMap_uniform
    (fun row => (Kernel.scalar.rowUpdate sources (matrix.couplings x).toArray x row).values) 1
    matrix.rows (fun row inside => by rw [scalar_row_update one covered long inside]; rfl) inside
    Nat.one_pos
  rw [Nat.mul_one, Nat.add_zero] at found
  rw [next, Launch.relaxed, List.getElem?_toArray]
  exact found

end Solver

namespace Model

def slice (n rank ranks : Nat) (x : Array α) : Array α :=
  x.extract (partition n rank ranks).first (partition n rank ranks).last

def rowSources (rows : Nat) (diagonal : α) (rhs : Array α) : Sources α :=
  ⟨Array.replicate rows diagonal, Array.replicate rows (1 / diagonal), rhs⟩

theorem factorize_replicate {diagonal : α} (usable : Arithmetic.usable diagonal = true)
    (rows : Nat) : InverseDiagonal.factorize (Array.replicate rows diagonal) 1 =
      .ok (.reciprocals (Array.replicate rows (1 / diagonal))) := by
  have none : (Array.replicate rows diagonal).findIdx?
      (fun value => !Arithmetic.usable value) = none := by
    apply Array.findIdx?_eq_none_iff.mpr
    intro value member
    rw [(Array.mem_replicate.mp member).2, usable]
    rfl
  unfold InverseDiagonal.factorize InverseDiagonal.ofScalars
  rw [if_pos rfl, none, Array.map_replicate]

section Sizes

variable {n rank ranks : Nat}

omit [Arithmetic α] in
theorem size_slice (cut : Cut n rank ranks) {x : Array α} (size : x.size = n) :
    (slice n rank ranks x).size = (Part.of n rank ranks).owned := by
  have owned := owned_part n rank ranks
  have most := cut.last_le
  rw [slice, Array.size_extract]
  omega

omit [Arithmetic α] in
theorem getElem?_slice (cut : Cut n rank ranks) {x : Array α} (size : x.size = n) {i : Nat}
    (inside : i < (Part.of n rank ranks).owned) :
    (slice n rank ranks x)[i]? = x[(partition n rank ranks).first + i]? := by
  have owned := owned_part n rank ranks
  have most := cut.last_le
  rw [slice, Array.getElem?_extract, if_pos (by omega)]

theorem covered_rows (rows : Nat) (diagonal : α) {rhs : Array α} (size : rhs.size = rows) :
    Kernel.scalar.Covered rows (rowSources rows diagonal rhs) := by
  refine ⟨by decide, ?_, ?_, ?_⟩ <;>
    simp [rowSources, Kernel.blockSize, Kernel.inverseLength, size]

omit [Arithmetic α] in
theorem getD_slice (cut : Cut n rank ranks) {x : Array α} (size : x.size = n) {i : Nat}
    (inside : i < (Part.of n rank ranks).owned) (default : α) :
    (slice n rank ranks x).getD i default = x.getD ((partition n rank ranks).first + i) default := by
  rw [Array.getD_eq_getD_getElem?, getElem?_slice cut size inside, ← Array.getD_eq_getD_getElem?]

def chainUpdate (n : Nat) (diagonal coupling : α) (rhs x : Array α) (i : Nat) : RowUpdate α :=
  Kernel.scalar.rowUpdate (rowSources n diagonal rhs)
    ((chainMatrix n diagonal coupling).couplings x).toArray x i

def chainNext (n : Nat) (diagonal coupling : α) (rhs x : Array α) : Array α :=
  Solver.next (chainMatrix n diagonal coupling) .scalar (rowSources n diagonal rhs) x

theorem size_chain_next (diagonal coupling : α) {x rhs : Array α} (xSize : x.size = n)
    (rhsSize : rhs.size = n) : (chainNext n diagonal coupling rhs x).size = n :=
  (Solver.size_next rfl (covered_rows n diagonal rhsSize) (by simp [xSize])).trans (Nat.mul_one n)

section Seen

variable [SignedZeros α] (cut : Cut n rank ranks) (diagonal coupling : α) {x y rhs : Array α}
  (xSize : x.size = n) (rhsSize : rhs.size = n) (long : (Part.of n rank ranks).columns ≤ y.size)
  (sees : Sees n rank ranks x y)

include cut xSize rhsSize long sees

theorem update_part {i : Nat} (inside : i < (Part.of n rank ranks).owned) :
    Kernel.scalar.rowUpdate
        (rowSources (Part.of n rank ranks).owned diagonal (slice n rank ranks rhs))
        ((partMatrix n diagonal coupling rank ranks).couplings y).toArray y i =
      chainUpdate n diagonal coupling rhs x ((partition n rank ranks).first + i) := by
  have wide := (owned_le_columns _).trans long
  have repeated : ∀ (value : α) rows k, k < rows → (Array.replicate rows value).getD k 0 = value := by
    intro value rows k bound
    simp [bound]
  have global := cut.row_lt inside
  -- the part has the chain's diagonal, its own piece of the right-hand side, and the same sums
  rw [chainUpdate, Solver.scalar_row_update rfl
    (covered_rows (Part.of n rank ranks).owned diagonal (size_slice cut rhsSize)) wide inside,
    Solver.scalar_row_update rfl (covered_rows n diagonal rhsSize) (by simp [xSize]) global,
    coupling_eq cut diagonal coupling inside sees, sees.owned i inside]
  simp only [rowSources]
  rw [repeated _ _ _ inside, repeated _ _ _ inside, repeated _ _ _ global, repeated _ _ _ global,
    getD_slice cut rhsSize inside]

theorem next_part :
    Solver.next (partMatrix n diagonal coupling rank ranks) .scalar
        (rowSources (Part.of n rank ranks).owned diagonal (slice n rank ranks rhs)) y =
      slice n rank ranks (chainNext n diagonal coupling rhs x) := by
  have wide := (owned_le_columns _).trans long
  have partCovered := covered_rows (Part.of n rank ranks).owned diagonal (size_slice cut rhsSize)
  have partSize : (Solver.next (partMatrix n diagonal coupling rank ranks) .scalar
      (rowSources (Part.of n rank ranks).owned diagonal (slice n rank ranks rhs)) y).size =
      (Part.of n rank ranks).owned :=
    (Solver.size_next rfl partCovered (by simpa using wide)).trans (Nat.mul_one _)
  have chainSize := size_chain_next diagonal coupling xSize rhsSize
  apply Array.ext_getElem?
  intro i
  by_cases inside : i < (Part.of n rank ranks).owned
  · rw [getElem?_slice cut chainSize inside, chainNext,
      Solver.getElem?_next_scalar rfl partCovered wide inside,
      Solver.getElem?_next_scalar rfl (covered_rows n diagonal rhsSize) (by simp [xSize])
        (cut.row_lt inside),
      update_part cut diagonal coupling xSize rhsSize long sees inside]
    rfl
  · rw [Array.getElem?_eq_none (by omega),
      Array.getElem?_eq_none (by rw [size_slice cut chainSize]; omega)]

end Seen

def chainShare (width : BlockWidth) (n : Nat) (diagonal coupling : α) (rhs : Array α) : Share α :=
  .ofInverse (chainMatrix n diagonal coupling) (.reciprocals (.replicate n (1 / diagonal))) rhs width
    .alone

def partShare (width : BlockWidth) (n : Nat) (diagonal coupling : α) (rhs : Array α)
    (rank ranks : Nat) : Share α :=
  .ofInverse (partMatrix n diagonal coupling rank ranks)
    (.reciprocals (.replicate (Part.of n rank ranks).owned (1 / diagonal))) (slice n rank ranks rhs)
    width (.member rank ranks)

/-- Sum of squares over a range of rows, in the order in which a device of this width adds. -/
def chainSquare (width : BlockWidth) (n : Nat) (diagonal coupling : α) (rhs x : Array α)
    (range : RowRange) : α :=
  Launch.levels (.cover range.length width.threads) range.length fun i =>
    (chainUpdate n diagonal coupling rhs x (range.first + i)).square

theorem chain_share_square (width : BlockWidth) (n : Nat) (diagonal coupling : α) (rhs x : Array α) :
    (chainShare width n diagonal coupling rhs).square x =
      chainSquare width n diagonal coupling rhs x ⟨0, n⟩ := by
  apply Launch.levels_congr
  intro row _
  rw [Nat.zero_add]
  rfl

theorem part_share_square [SignedZeros α] (cut : Cut n rank ranks) (width : BlockWidth)
    (diagonal coupling : α) {x y rhs : Array α} (xSize : x.size = n) (rhsSize : rhs.size = n)
    (long : (Part.of n rank ranks).columns ≤ y.size) (sees : Sees n rank ranks x y) :
    (partShare width n diagonal coupling rhs rank ranks).square y =
      chainSquare width n diagonal coupling rhs x (partition n rank ranks) := by
  apply Launch.levels_congr
  intro row inside
  exact congrArg RowUpdate.square
    (update_part cut diagonal coupling xSize rhsSize long sees inside)

end Sizes

end Model
end Relaxation

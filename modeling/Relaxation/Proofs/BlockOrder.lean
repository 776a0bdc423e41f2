import Relaxation.Proofs.InverseDiagonal
import Relaxation.Proofs.Launch

/-!
Thread blocks in any order. A launch gives a thread to the rows its blocks reach, and no row is
reached by two blocks; what a block computes is made of the old values of its own rows. So every
order of the blocks leaves the same workspace, which is written down here value by value.
-/

namespace Relaxation

variable {α : Type}

def Storage.rowOf [Zero α] (values : Array α) (width row : Nat) : Vector α width :=
  .ofFn fun k => values.getD (row * width + k.val) 0

theorem Storage.window_row_of [Zero α] {values : Array α} {width row : Nat}
    (inside : row * width + width ≤ values.size) :
    window values (row * width) width inside = rowOf values width row := by
  apply Vector.ext
  intro k bound
  have within : row * width + k < values.size := by omega
  simp [window, rowOf, within]

variable [Arithmetic α]

namespace Kernel

def ownUpdate (kernel : Kernel) (diagonal inverse : Block α kernel.blockSize)
    (rhs product previous : Vector α kernel.blockSize) : RowUpdate α :=
  match kernel with
  | .scalar =>
    scalarUpdate (Block.entry (n := 1) diagonal 0 0) (Block.entry (n := 1) inverse 0 0)
      (Vector.get (n := 1) rhs 0) (Vector.get (n := 1) product 0) (Vector.get (n := 1) previous 0)
  | .triple => tripleUpdate diagonal inverse rhs product previous
  | .block _ => blockUpdate diagonal inverse rhs product previous

def updateAt (kernel : Kernel) (sources : Sources α) (workspace : Workspace α) (row : Nat) :
    RowUpdate α :=
  let b := kernel.blockSize
  kernel.ownUpdate (.stored sources.diagonal (row * (b * b)) b)
    (.stored sources.inverse (row * (b * b)) b) (Storage.rowOf sources.rhs b row)
    (Storage.rowOf workspace.iterate b row) (Storage.rowOf workspace.previous b row)

theorem row_update_eq_update_at {kernel : Kernel} {rows row : Nat} {sources : Sources α}
    {workspace : Workspace α} (covered : kernel.Covered rows sources) (inside : row < rows)
    (iterateLong : rows * kernel.blockSize ≤ workspace.iterate.size)
    (previousLong : rows * kernel.blockSize ≤ workspace.previous.size) :
    kernel.rowUpdate sources workspace.iterate workspace.previous row =
      kernel.updateAt sources workspace row := by
  obtain ⟨small, diagonalLong, inverseLong, rhsLong⟩ := covered
  unfold rowUpdate updateAt
  cases kernel with
  | scalar =>
      simp only [blockSize, inverseLength, Nat.mul_one] at *
      have entry : ∀ {values : Array α} (long : row < values.size),
          values[row] = (Block.stored values row 1).entry 0 0 := by
        intro values long
        simp [long]
      have component : ∀ {values : Array α} (long : row < values.size),
          values[row] = (Storage.rowOf values 1 row).get 0 := by
        intro values long
        simp [Storage.rowOf, Vector.get, long]
      rw [scalar_update_eq (by omega) (by omega) (by omega) (by omega) (by omega)]
      simp only [entry (show row < sources.diagonal.size by omega),
        entry (show row < sources.inverse.size by omega),
        component (show row < sources.rhs.size by omega),
        component (show row < workspace.iterate.size by omega),
        component (show row < workspace.previous.size by omega)]
      rfl
  | triple =>
      simp only [blockSize, inverseLength] at *
      rw [triple_update_eq (by omega) (by omega) (by omega) (by omega) (by omega)]
      simp only [Block.window_stored (n := 3)]
      simp only [Storage.window_row_of]
      rfl
  | block n =>
      simp only [blockSize, inverseLength] at *
      have vector := row_end_le n inside
      have square := row_end_le (n * n) inside
      rw [Nat.mul_assoc] at diagonalLong inverseLong
      rw [block_update_eq small (by omega) (by omega) (by omega) (by omega) (by omega)]
      simp only [Block.window_stored]
      simp only [Storage.window_row_of]
      rfl

end Kernel

namespace Launch

/-- What a launch reads and writes is there: matrix and right-hand side for the rows it reaches,
both iterates for all rows, and a partial for every block. -/
structure Room (kernel : Kernel) (geometry : Geometry) (rows : Nat) (sources : Sources α)
    (workspace : Workspace α) : Prop where
  diagonal : reached geometry rows * kernel.blockSize * kernel.blockSize ≤ sources.diagonal.size
  inverse : kernel.inverseLength (reached geometry rows) ≤ sources.inverse.size
  rhs : reached geometry rows * kernel.blockSize ≤ sources.rhs.size
  iterate : rows * kernel.blockSize ≤ workspace.iterate.size
  previous : rows * kernel.blockSize ≤ workspace.previous.size
  partials : geometry.blocks ≤ workspace.partials.size

def blockRows (threads rows block : Nat) : List Nat :=
  List.range' (block * threads) (min threads (rows - block * threads))

/-- What the rows of a thread block add to the residual, with zeros for the threads that are
left over. -/
def contributions (kernel : Kernel) (sources : Sources α) (threads rows : Nat)
    (old : Workspace α) (block : Nat) : Array α :=
  let own := blockRows threads rows block
  (own.map (fun row => (kernel.updateAt sources old row).square) ++
    List.replicate (threads - own.length) 0).toArray

/-- `new` is `old` with each row that is reached updated once, from the old values of the row, and
with a partial sum for each block. -/
structure UpdatedOnce (kernel : Kernel) (geometry : Geometry) (rows : Nat) (sources : Sources α)
    (old new : Workspace α) : Prop where
  iterate : ∀ row k, row < reached geometry rows → k < kernel.blockSize →
    new.iterate[row * kernel.blockSize + k]? = (kernel.updateAt sources old row).values[k]?
  previous : ∀ row k, row < reached geometry rows → k < kernel.blockSize →
    new.previous[row * kernel.blockSize + k]? = (kernel.updateAt sources old row).values[k]?
  length : ∀ row, row < reached geometry rows →
    (kernel.updateAt sources old row).values.length = kernel.blockSize
  otherIterate : ∀ index, reached geometry rows * kernel.blockSize ≤ index →
    new.iterate[index]? = old.iterate[index]?
  otherPrevious : ∀ index, reached geometry rows * kernel.blockSize ≤ index →
    new.previous[index]? = old.previous[index]?
  partials : ∀ block, block < geometry.blocks → block * geometry.threadsPerBlock < rows →
    ∃ total finished, Reduction.blockReduce
        (contributions kernel sources geometry.threadsPerBlock rows old block) =
          .ok (total, finished) ∧ new.partials[block]? = some total
  emptyPartials : ∀ block, block < geometry.blocks → rows ≤ block * geometry.threadsPerBlock →
    new.partials[block]? = some 0
  otherPartials : ∀ block, geometry.blocks ≤ block → new.partials[block]? = old.partials[block]?

section Order

variable {kernel : Kernel} {geometry : Geometry} {rows : Nat} {sources : Sources α}
  {old new new' : Workspace α}

omit [Arithmetic α] in
theorem eq_of_rows {width count : Nat} {left right : Array α} (positive : 0 < width)
    (rows : ∀ row k, row < count → k < width → left[row * width + k]? = right[row * width + k]?)
    (behind : ∀ index, count * width ≤ index → left[index]? = right[index]?) : left = right := by
  apply Array.ext_getElem?
  intro index
  by_cases inside : index / width < count
  · have here := rows (index / width) (index % width) inside (Nat.mod_lt index positive)
    rwa [Nat.div_add_mod'] at here
  · exact behind index ((Nat.le_div_iff_mul_le positive).mp (Nat.not_lt.mp inside))

theorem UpdatedOnce.unique (positive : 0 < kernel.blockSize)
    (first : UpdatedOnce kernel geometry rows sources old new)
    (second : UpdatedOnce kernel geometry rows sources old new') : new = new' := by
  have iterate : new.iterate = new'.iterate := by
    apply eq_of_rows positive
    · intro row k inside bound
      rw [first.iterate row k inside bound, second.iterate row k inside bound]
    · intro index behind
      rw [first.otherIterate index behind, second.otherIterate index behind]
  have previous : new.previous = new'.previous := by
    apply eq_of_rows positive
    · intro row k inside bound
      rw [first.previous row k inside bound, second.previous row k inside bound]
    · intro index behind
      rw [first.otherPrevious index behind, second.otherPrevious index behind]
  have partials : new.partials = new'.partials := by
    apply Array.ext_getElem?
    intro block
    by_cases listed : block < geometry.blocks
    · by_cases rowed : block * geometry.threadsPerBlock < rows
      · obtain ⟨total, finished, ran, found⟩ := first.partials block listed rowed
        obtain ⟨total', finished', ran', found'⟩ := second.partials block listed rowed
        rw [ran] at ran'
        cases ran'
        rw [found, found']
      · rw [first.emptyPartials block listed (Nat.not_lt.mp rowed),
          second.emptyPartials block listed (Nat.not_lt.mp rowed)]
    · rw [first.otherPartials block (Nat.not_lt.mp listed),
        second.otherPartials block (Nat.not_lt.mp listed)]
  obtain ⟨_, _, _⟩ := new
  obtain ⟨_, _, _⟩ := new'
  simp only at iterate previous partials
  rw [iterate, previous, partials]

omit [Arithmetic α] in
theorem Room.fits (room : Room kernel geometry rows sources old) (positive : 0 < kernel.blockSize)
    (small : kernel.blockSize ≤ maxBlockSize)
    (width : Reduction.validWidth geometry.threadsPerBlock = true) :
    Fits kernel sources geometry.threadsPerBlock (reached geometry rows) old := by
  have fewer : reached geometry rows * kernel.blockSize ≤ rows * kernel.blockSize :=
    Nat.mul_le_mul_right _ (Nat.min_le_left ..)
  exact ⟨⟨small, room.diagonal, room.inverse, room.rhs⟩, positive, width,
    fewer.trans room.iterate, fewer.trans room.previous⟩

theorem scratch_eq_contributions
    (fits : Fits kernel sources geometry.threadsPerBlock (reached geometry rows) old)
    {block : Nat} (listed : block < geometry.blocks) :
    scratch kernel sources geometry.threadsPerBlock rows old block =
      contributions kernel sources geometry.threadsPerBlock rows old block := by
  have last := block_end_le listed
  rw [scratch_eq _ rfl]
  unfold contributions blockRows
  dsimp only
  rw [List.length_range', List.range'_eq_map_range, List.map_map, List.map_map]
  congr 2
  apply List.map_congr_left
  intro thread member
  have bound := List.mem_range.mp member
  have inside : block * geometry.threadsPerBlock + thread < reached geometry rows := by
    unfold reached
    omega
  exact congrArg RowUpdate.square (Kernel.row_update_eq_update_at fits.covered inside
    fits.iterateLong fits.previousLong)

theorem Launched.updated_once (launched : Launched kernel geometry rows sources old new)
    (fits : Fits kernel sources geometry.threadsPerBlock (reached geometry rows) old)
    (partialsLong : geometry.blocks ≤ old.partials.size) :
    UpdatedOnce kernel geometry rows sources old new := by
  have wide := Reduction.valid_width_le fits.width
  have positive : 0 < geometry.threadsPerBlock := by omega
  have update : ∀ row, row < reached geometry rows →
      kernel.rowUpdate sources old.iterate old.previous row = kernel.updateAt sources old row :=
    fun row inside => Kernel.row_update_eq_update_at fits.covered inside fits.iterateLong
      fits.previousLong
  -- a position behind the rows that are reached belongs to a row that is not
  have idle : ∀ {index}, reached geometry rows * kernel.blockSize ≤ index →
      ¬(index / kernel.blockSize < rows ∧
        index / kernel.blockSize / geometry.threadsPerBlock < geometry.blocks) := by
    intro index behind
    rw [← lt_reached positive, Nat.not_lt]
    exact (Nat.le_div_iff_mul_le fits.positive).mpr behind
  refine ⟨fun row k inside bound => ?_, fun row k inside bound => ?_, fun row inside => ?_,
    fun index behind => ?_, fun index behind => ?_, fun block listed rowed => ?_,
    fun block listed empty => ?_, fun block beyond => ?_⟩
  · rw [launched.iterate row k bound, if_pos ((lt_reached positive rows row).mp inside),
      update row inside]
  · rw [launched.previous row k bound, if_pos ((lt_reached positive rows row).mp inside),
      update row inside]
  · rw [← update row inside]
    exact Kernel.length_row_update fits.covered inside fits.iterateLong fits.previousLong
  · exact launched.iterate_kept fits.positive (idle behind)
  · exact launched.previous_kept fits.positive (idle behind)
  · obtain ⟨finished, ran⟩ := Reduction.block_reduce_total
      (scratch kernel sources geometry.threadsPerBlock rows old block)
      (by simpa [scratch] using fits.width)
    rw [scratch_eq_contributions fits listed] at ran
    refine ⟨_, finished, ran, ?_⟩
    rw [launched.partials block, if_pos listed, if_pos rowed, scratch_eq_contributions fits listed,
      Array.getElem?_eq_getElem (by omega), Option.map_some]
  · rw [launched.partials block, if_pos listed, if_neg (Nat.not_lt.mpr empty),
      Array.getElem?_eq_getElem (by omega), Option.map_some]
  · rw [launched.partials block, if_neg (Nat.not_lt.mpr beyond)]

omit [Arithmetic α] in
theorem rows_of_blocks (threads rows blocks : Nat) :
    (List.range blocks).flatMap (blockRows threads rows) =
      List.range (min rows (blocks * threads)) := by
  induction blocks with
  | zero => simp
  | succ blocks ih =>
      rw [List.range_succ, List.flatMap_append, ih, List.flatMap_singleton, Nat.succ_mul]
      by_cases some : blocks * threads < rows
      · -- the rows of the last block go on where those of the others end
        have whole : min rows (blocks * threads + threads) =
            blocks * threads + min threads (rows - blocks * threads) := by omega
        rw [whole, Nat.min_eq_right (Nat.le_of_lt some), List.range_add, blockRows,
          List.range'_eq_map_range]
      · rw [blockRows, Nat.sub_eq_zero_of_le (Nat.not_lt.mp some), Nat.min_zero,
          List.range'_zero, List.append_nil]
        congr 1
        omega

omit [Arithmetic α] in
theorem reached_once {order : List Nat} (positive : 0 < geometry.threadsPerBlock)
    (all : order.Perm (List.range (activeBlocks geometry rows))) :
    (order.flatMap (blockRows geometry.threadsPerBlock rows)).Perm
      (List.range (reached geometry rows)) := by
  have covered : min rows (activeBlocks geometry rows * geometry.threadsPerBlock) =
      reached geometry rows := by
    apply Nat.le_antisymm
    · have fewer : activeBlocks geometry rows ≤ geometry.blocks := Nat.min_le_right ..
      have steps := Nat.mul_le_mul_right geometry.threadsPerBlock fewer
      unfold reached
      omega
    · refine Nat.le_min.mpr ⟨Nat.min_le_left .., ?_⟩
      by_contra short
      have more := Nat.lt_of_not_le short
      have behind := (lt_reached positive rows _).mp more
      rw [Nat.mul_div_cancel _ positive, ← lt_active_blocks positive] at behind
      exact Nat.lt_irrefl _ behind
  rw [← covered, ← rows_of_blocks]
  exact all.flatMap_right _

end Order

end Launch
end Relaxation

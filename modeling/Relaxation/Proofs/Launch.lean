import Relaxation.Launch
import Relaxation.Proofs.Kernel
import Relaxation.Proofs.Program
import Relaxation.Proofs.Reduction

/-!
A relaxation launch updates every row of its thread blocks once, from the row's
own old values, in whatever order the blocks run.
-/

namespace Relaxation.Launch

variable {α : Type} [Arithmetic α]

def scratch (kernel : Kernel) (sources : Sources α) (threads rows : Nat) (old : Workspace α)
    (block : Nat) : Array α :=
  ((List.range threads).map fun thread =>
    if block * threads + thread < rows then
      (kernel.rowUpdate sources old.iterate old.previous (block * threads + thread)).square
    else 0).toArray

/-- `new` is `old` once the thread blocks in `done` have run. -/
structure Relaxed (kernel : Kernel) (sources : Sources α) (threads rows : Nat)
    (old : Workspace α) (done : List Nat) (new : Workspace α) : Prop where
  iterateSize : new.iterate.size = old.iterate.size
  previousSize : new.previous.size = old.previous.size
  partialsSize : new.partials.size = old.partials.size
  iterate : ∀ row k, k < kernel.blockSize → new.iterate[row * kernel.blockSize + k]? =
    if row < rows ∧ row / threads ∈ done then
      (kernel.rowUpdate sources old.iterate old.previous row).values[k]?
    else old.iterate[row * kernel.blockSize + k]?
  previous : ∀ row k, k < kernel.blockSize → new.previous[row * kernel.blockSize + k]? =
    if row < rows ∧ row / threads ∈ done then
      (kernel.rowUpdate sources old.iterate old.previous row).values[k]?
    else old.previous[row * kernel.blockSize + k]?
  partials : ∀ block, new.partials[block]? =
    if block ∈ done then old.partials[block]?.map fun _ =>
      Reduction.blockTotal (scratch kernel sources threads rows old block)
    else old.partials[block]?

structure Fits (kernel : Kernel) (sources : Sources α) (threads rows : Nat)
    (workspace : Workspace α) : Prop where
  covered : kernel.Covered rows sources
  positive : 0 < kernel.blockSize
  width : Reduction.validWidth threads = true
  iterateLong : rows * kernel.blockSize ≤ workspace.iterate.size
  previousLong : rows * kernel.blockSize ≤ workspace.previous.size

section Threads

variable {kernel : Kernel} {sources : Sources α} {threads rows block : Nat}
  {old mid : Workspace α} {done : List Nat}

theorem relaxed_nothing (old : Workspace α) : Relaxed kernel sources threads rows old [] old := by
  constructor <;> simp

theorem update_row_of_relaxed (fits : Fits kernel sources threads rows old)
    (relaxed : Relaxed kernel sources threads rows old done mid) {row : Nat} (inside : row < rows)
    (pending : row / threads ∉ done) :
    kernel.updateRow sources mid.iterate mid.previous row =
      .ok (kernel.rowUpdate sources old.iterate old.previous row) := by
  rw [← Kernel.update_row_eq fits.covered inside fits.iterateLong fits.previousLong]
  apply Kernel.update_row_local
  · refine ⟨relaxed.iterateSize, fun k bound => ?_⟩
    rw [relaxed.iterate row k bound, if_neg fun hit => pending hit.2]
  · refine ⟨relaxed.previousSize, fun k bound => ?_⟩
    rw [relaxed.previous row k bound, if_neg fun hit => pending hit.2]

omit [Arithmetic α] in
theorem getElem?_overwrite_block {b count : Nat} (positive : 0 < threads)
    (new : Nat → List α) (uniform : ∀ row, row < rows → (new row).length = b)
    (counted : count = min threads (rows - block * threads)) {values : Array α}
    (long : rows * b ≤ values.size) {row k : Nat} (bound : k < b) :
    (Storage.overwrite values (block * threads * b)
      ((List.range count).flatMap fun thread => new (block * threads + thread)))[row * b + k]? =
      if row < rows ∧ row / threads = block then (new row)[k]? else values[row * b + k]? := by
  have pieces : ∀ thread, thread < count → (new (block * threads + thread)).length = b :=
    fun thread bound => uniform _ (by omega)
  have length := length_flatMap_uniform
    (fun thread => new (block * threads + thread)) b count pieces
  have quotient : row / threads = block ↔
      block * threads ≤ row ∧ row < block * threads + threads := by
    rw [Nat.div_eq_iff positive]
    omega
  by_cases here : row < rows ∧ row / threads = block
  · -- the row is one of the block's, so its values are a piece of what is written
    rw [if_pos here]
    obtain ⟨inside, same⟩ := here
    obtain ⟨low, high⟩ := quotient.mp same
    have thread : row - block * threads < count := by omega
    have position : row * b + k =
        block * threads * b + ((row - block * threads) * b + k) := by
      rw [← Nat.add_assoc, ← Nat.add_mul, Nat.add_sub_cancel' low]
    have last := Kernel.row_end_le b thread
    have fits : (block * threads + count) * b ≤ rows * b := Nat.mul_le_mul_right b (by omega)
    rw [Nat.add_mul] at fits
    rw [position, Storage.getElem?_overwrite_inside _ _ _ (by omega) (by omega),
      getElem?_flatMap_uniform _ b count pieces thread bound, Nat.add_sub_cancel' low]
  · rw [if_neg here]
    apply Storage.getElem?_overwrite_outside
    rw [length]
    rw [quotient] at here
    -- else it ends before the first piece or begins behind the last
    have side : row < block * threads ∨ block * threads + count ≤ row := by omega
    rcases side with before | behind
    · have next := Nat.mul_le_mul_right b before
      rw [Nat.succ_mul] at next
      omega
    · have next := Nat.mul_le_mul_right b behind
      rw [Nat.add_mul] at next
      omega

omit [Arithmetic α] in
theorem threads_past_rows [Zero α] (added : Nat → α) {threads rows first count : Nat}
    (counted : count = min threads (rows - first)) :
    ((List.range threads).map fun thread =>
      if first + thread < rows then added (first + thread) else 0) =
      ((List.range count).map fun thread => added (first + thread)) ++
        List.replicate (threads - count) 0 := by
  apply List.ext_getElem?
  intro thread
  by_cases inside : thread < count
  · rw [List.getElem?_append_left (by simpa using inside)]
    have wide : thread < threads := by omega
    have row : first + thread < rows := by omega
    simp [inside, wide, row]
  · rw [List.getElem?_append_right (by simpa using inside)]
    have past : ¬ first + thread < rows ∨ ¬ thread < threads := by omega
    by_cases wide : thread < threads
    · have row : ¬ first + thread < rows := past.resolve_right (by simpa using wide)
      have shifted : thread - count < threads - count := by omega
      simp [wide, row, shifted]
    · have shifted : ¬ thread - count < threads - count := by omega
      simp [wide, shifted]

theorem scratch_eq (count : Nat) (counted : count = min threads (rows - block * threads)) :
    scratch kernel sources threads rows old block =
      ((((List.range count).map fun thread =>
        kernel.rowUpdate sources old.iterate old.previous (block * threads + thread)).map
          RowUpdate.square) ++ List.replicate (threads - count) 0).toArray := by
  rw [List.map_map]
  exact congrArg List.toArray (threads_past_rows
    (fun row => (kernel.rowUpdate sources old.iterate old.previous row).square) counted)

theorem relax_threads_run (fits : Fits kernel sources threads rows old)
    (relaxed : Relaxed kernel sources threads rows old done mid) (pending : block ∉ done) :
    ∃ new, relaxThreads kernel sources threads rows block mid = (.ok (), new) ∧
      Relaxed kernel sources threads rows old (block :: done) new := by
  have wide := Reduction.valid_width_le fits.width
  have positive : 0 < threads := by omega
  obtain ⟨count, counted⟩ : ∃ count, count = min threads (rows - block * threads) := ⟨_, rfl⟩
  let new := fun row => kernel.rowUpdate sources old.iterate old.previous row
  have uniform : ∀ row, row < rows → (new row).values.length = kernel.blockSize := fun row inside =>
    Kernel.length_row_update fits.covered inside fits.iterateLong fits.previousLong
  -- its rows are untouched by the blocks before it, so its threads read the old values
  have updates : (List.range count |> Fault.mapUntil fun thread =>
      kernel.updateRow sources mid.iterate mid.previous (block * threads + thread)) =
      ((List.range count).map fun thread => new (block * threads + thread), .ok ()) := by
    apply Fault.map_until_ok
    intro thread member
    have bound := List.mem_range.mp member
    have own : (block * threads + thread) / threads = block := by
      rw [Nat.div_eq_iff positive]
      omega
    exact update_row_of_relaxed fits relaxed (by omega) (by rwa [own])
  have total : Reduction.validWidth (scratch kernel sources threads rows old block).size = true := by
    simpa [scratch] using fits.width
  obtain ⟨finished, reduced⟩ := Reduction.block_reduce_total _ total
  rw [scratch_eq count counted] at reduced
  refine ⟨{
    iterate := Storage.overwrite mid.iterate (block * threads * kernel.blockSize)
      ((List.range count).flatMap fun thread => (new (block * threads + thread)).values)
    previous := Storage.overwrite mid.previous (block * threads * kernel.blockSize)
      ((List.range count).flatMap fun thread => (new (block * threads + thread)).values)
    partials := mid.partials.setIfInBounds block
      (Reduction.blockTotal (scratch kernel sources threads rows old block)) }, ?_, ?_⟩
  · have values : ((List.range count).map fun thread =>
        new (block * threads + thread)).flatMap RowUpdate.values =
        (List.range count).flatMap fun thread => (new (block * threads + thread)).values :=
      List.flatMap_map ..
    unfold relaxThreads
    rw [get_bind]
    simp only [← counted, updates]
    rw [modify_bind, lift_ok_bind, reduced, lift_ok_bind, scratch_eq count counted, values]
    rfl
  · have merged : ∀ values : Array α, rows * kernel.blockSize ≤ values.size →
        ∀ row k, k < kernel.blockSize →
        (Storage.overwrite values (block * threads * kernel.blockSize) ((List.range count).flatMap
          fun thread => (new (block * threads + thread)).values))[row * kernel.blockSize + k]? =
          if row < rows ∧ row / threads = block then (new row).values[k]?
          else values[row * kernel.blockSize + k]? := fun values long row k bound =>
      getElem?_overwrite_block positive (fun row => (new row).values) uniform counted long bound
    refine ⟨by simp [relaxed.iterateSize], by simp [relaxed.previousSize],
      by simp [relaxed.partialsSize], ?_, ?_, ?_⟩
    · intro row k bound
      rw [merged mid.iterate (relaxed.iterateSize ▸ fits.iterateLong) row k bound,
        relaxed.iterate row k bound]
      by_cases own : row / threads = block <;> simp [own, new, pending]
    · intro row k bound
      rw [merged mid.previous (relaxed.previousSize ▸ fits.previousLong) row k bound,
        relaxed.previous row k bound]
      by_cases own : row / threads = block <;> simp [own, new, pending]
    · intro other
      rw [Array.getElem?_setIfInBounds, relaxed.partials other, relaxed.partialsSize]
      by_cases own : block = other
      · subst own
        by_cases inside : block < old.partials.size <;> simp [inside]
      · simp [own, Ne.symm own]

theorem relax_in_order_run (fits : Fits kernel sources threads rows old) (order : List Nat)
    (relaxed : Relaxed kernel sources threads rows old done mid) (once : order.Nodup)
    (pending : ∀ block ∈ order, block ∉ done) :
    ∃ new, relaxInOrder kernel sources threads rows order mid = (.ok (), new) ∧
      Relaxed kernel sources threads rows old (order.reverse ++ done) new := by
  induction order generalizing done mid with
  | nil => exact ⟨mid, rfl, relaxed⟩
  | cons block rest ih =>
      obtain ⟨fresh, onceRest⟩ := List.nodup_cons.mp once
      obtain ⟨next, first, progress⟩ :=
        relax_threads_run fits relaxed (pending block List.mem_cons_self)
      obtain ⟨new, later, finished⟩ := ih progress onceRest fun other member hit => by
        rcases List.mem_cons.mp hit with same | earlier
        · exact fresh (same ▸ member)
        · exact pending other (List.mem_cons_of_mem block member) earlier
      refine ⟨new, ?_, by simpa using finished⟩
      simp only [relaxInOrder, ExceptT.mk, ExceptT.run, bind, StateT.bind, first, later]
      rfl

end Threads

/-- A finished launch: every row of its thread blocks is updated once, every block
of the geometry has its partial, and all else is as it was. -/
structure Launched (kernel : Kernel) (geometry : Geometry) (rows : Nat) (sources : Sources α)
    (old new : Workspace α) : Prop where
  iterateSize : new.iterate.size = old.iterate.size
  previousSize : new.previous.size = old.previous.size
  partialsSize : new.partials.size = old.partials.size
  iterate : ∀ row k, k < kernel.blockSize → new.iterate[row * kernel.blockSize + k]? =
    if row < rows ∧ row / geometry.threadsPerBlock < geometry.blocks then
      (kernel.rowUpdate sources old.iterate old.previous row).values[k]?
    else old.iterate[row * kernel.blockSize + k]?
  previous : ∀ row k, k < kernel.blockSize → new.previous[row * kernel.blockSize + k]? =
    if row < rows ∧ row / geometry.threadsPerBlock < geometry.blocks then
      (kernel.rowUpdate sources old.iterate old.previous row).values[k]?
    else old.previous[row * kernel.blockSize + k]?
  partials : ∀ block, new.partials[block]? =
    if block < geometry.blocks then old.partials[block]?.map fun _ =>
      if block * geometry.threadsPerBlock < rows then
        Reduction.blockTotal (scratch kernel sources geometry.threadsPerBlock rows old block)
      else 0
    else old.partials[block]?

section Idle

variable {kernel : Kernel} {geometry : Geometry} {rows : Nat} {sources : Sources α}
  {old new : Workspace α} (launched : Launched kernel geometry rows sources old new)
  (positive : 0 < kernel.blockSize)

include launched positive

theorem Launched.iterate_kept {index : Nat} (idle : ¬(index / kernel.blockSize < rows ∧
    index / kernel.blockSize / geometry.threadsPerBlock < geometry.blocks)) :
    new.iterate[index]? = old.iterate[index]? := by
  have here := launched.iterate (index / kernel.blockSize) _ (Nat.mod_lt index positive)
  rwa [Nat.div_add_mod', if_neg idle] at here

theorem Launched.previous_kept {index : Nat} (idle : ¬(index / kernel.blockSize < rows ∧
    index / kernel.blockSize / geometry.threadsPerBlock < geometry.blocks)) :
    new.previous[index]? = old.previous[index]? := by
  have here := launched.previous (index / kernel.blockSize) _ (Nat.mod_lt index positive)
  rwa [Nat.div_add_mod', if_neg idle] at here

end Idle

theorem lt_active_blocks {geometry : Geometry} (positive : 0 < geometry.threadsPerBlock)
    (rows block : Nat) : block < activeBlocks geometry rows ↔
      block * geometry.threadsPerBlock < rows ∧ block < geometry.blocks := by
  have ceiling : block < (rows + geometry.threadsPerBlock - 1) / geometry.threadsPerBlock ↔
      block * geometry.threadsPerBlock < rows := by
    rw [Nat.lt_iff_add_one_le, Nat.le_div_iff_mul_le positive, Nat.succ_mul]
    omega
  simp only [activeBlocks, Nat.lt_min, ceiling]

def reached (geometry : Geometry) (rows : Nat) : Nat :=
  min rows (geometry.blocks * geometry.threadsPerBlock)

theorem lt_reached {geometry : Geometry} (positive : 0 < geometry.threadsPerBlock)
    (rows row : Nat) : row < reached geometry rows ↔
      row < rows ∧ row / geometry.threadsPerBlock < geometry.blocks := by
  rw [reached, Nat.lt_min, Nat.div_lt_iff_lt_mul positive]

theorem block_end_le {geometry : Geometry} {block : Nat} (listed : block < geometry.blocks) :
    block * geometry.threadsPerBlock + geometry.threadsPerBlock ≤
      geometry.blocks * geometry.threadsPerBlock := by
  rw [← Nat.succ_mul]
  exact Nat.mul_le_mul_right _ listed

theorem relax_in_order_reached (kernel : Kernel) (sources : Sources α) (geometry : Geometry)
    (rows : Nat) {order : List Nat} (listed : ∀ block ∈ order, block < geometry.blocks) :
    relaxInOrder kernel sources geometry.threadsPerBlock rows order =
      relaxInOrder kernel sources geometry.threadsPerBlock (reached geometry rows) order := by
  have threads : ∀ block, block < geometry.blocks →
      relaxThreads kernel sources geometry.threadsPerBlock rows block =
        relaxThreads kernel sources geometry.threadsPerBlock (reached geometry rows) block := by
    intro block inside
    have last := block_end_le inside
    have count : min geometry.threadsPerBlock (rows - block * geometry.threadsPerBlock) =
        min geometry.threadsPerBlock
          (reached geometry rows - block * geometry.threadsPerBlock) := by
      unfold reached
      omega
    simp only [relaxThreads, count]
  induction order with
  | nil => rfl
  | cons block rest ih =>
      have later := ih fun other member => listed other (List.mem_cons_of_mem block member)
      simp only [relaxInOrder, threads block (listed block List.mem_cons_self), later]

theorem scratch_reached (kernel : Kernel) (sources : Sources α) {geometry : Geometry} (rows : Nat)
    (old : Workspace α) {block : Nat} (listed : block < geometry.blocks) :
    scratch kernel sources geometry.threadsPerBlock (reached geometry rows) old block =
      scratch kernel sources geometry.threadsPerBlock rows old block := by
  have last := block_end_le listed
  apply congrArg List.toArray
  apply List.map_congr_left
  intro thread member
  have bound := List.mem_range.mp member
  have same : block * geometry.threadsPerBlock + thread < reached geometry rows ↔
      block * geometry.threadsPerBlock + thread < rows := by
    unfold reached
    omega
  simp only [same]

def fusedRelaxInOrder (kernel : Kernel) (geometry : Geometry) (rows : Nat) (sources : Sources α)
    (order : List Nat) : LaunchM α Unit := do
  let values := rows * kernel.blockSize
  if (← get).partials.size < geometry.blocks then throw .outOfRange
  modify fun workspace => { workspace with
    partials := Storage.fill workspace.partials geometry.blocks 0 }
  if (← get).iterate.size < values ∨ (← get).previous.size < values then throw .outOfRange
  if geometry.threadsPerBlock * kernel.blockSize = 0 then throw .emptyChunk
  relaxInOrder kernel sources geometry.threadsPerBlock rows order

theorem fused_relax_eq_in_order (kernel : Kernel) (geometry : Geometry) (rows : Nat)
    (sources : Sources α) : fusedRelax kernel geometry rows sources =
      fusedRelaxInOrder kernel geometry rows sources (List.range (activeBlocks geometry rows)) :=
  rfl

/-- The launch never faults on buffers that are long enough, whatever the order of its blocks.
Of the matrix it needs the rows that it reaches. -/
theorem fused_relax_in_order_run {kernel : Kernel} {geometry : Geometry} {rows : Nat}
    {sources : Sources α} {old : Workspace α} {order : List Nat}
    (fits : Fits kernel sources geometry.threadsPerBlock (reached geometry rows) old)
    (iterateLong : rows * kernel.blockSize ≤ old.iterate.size)
    (previousLong : rows * kernel.blockSize ≤ old.previous.size)
    (partialsLong : geometry.blocks ≤ old.partials.size)
    (all : order.Perm (List.range (activeBlocks geometry rows))) :
    ∃ new, fusedRelaxInOrder kernel geometry rows sources order old = (.ok (), new) ∧
      Launched kernel geometry rows sources old new := by
  have wide := Reduction.valid_width_le fits.width
  have positive : 0 < geometry.threadsPerBlock := by omega
  have active : ∀ block, block ∈ order ↔
      block * geometry.threadsPerBlock < rows ∧ block < geometry.blocks := by
    intro block
    rw [all.mem_iff, List.mem_range, lt_active_blocks positive]
  let filled : Workspace α :=
    { old with partials := Storage.fill old.partials geometry.blocks 0 }
  have filledFits : Fits kernel sources geometry.threadsPerBlock (reached geometry rows) filled :=
    ⟨fits.covered, fits.positive, fits.width, fits.iterateLong, fits.previousLong⟩
  obtain ⟨new, ran, relaxed⟩ := relax_in_order_run filledFits order (relaxed_nothing filled)
    (all.nodup_iff.mpr List.nodup_range) (fun _ _ => List.not_mem_nil)
  have done : ∀ block, block ∈ order.reverse ++ [] ↔
      block * geometry.threadsPerBlock < rows ∧ block < geometry.blocks := by
    intro block
    rw [List.append_nil, List.mem_reverse, active]
  -- a row that is reached lies in a block that has rows
  have updated : ∀ (row : Nat) (updated kept : Option α),
      (if row < reached geometry rows ∧ row / geometry.threadsPerBlock ∈ order.reverse ++ []
        then updated else kept) =
      if row < rows ∧ row / geometry.threadsPerBlock < geometry.blocks then updated else kept := by
    intro row updated kept
    have first := Nat.div_mul_le_self row geometry.threadsPerBlock
    have same : (row < reached geometry rows ∧
        row / geometry.threadsPerBlock ∈ order.reverse ++ []) ↔
        row < rows ∧ row / geometry.threadsPerBlock < geometry.blocks := by
      rw [lt_reached positive, done]
      omega
    simp only [same]
  refine ⟨new, ?_, relaxed.iterateSize, relaxed.previousSize, ?_, ?_, ?_, ?_⟩
  · have nonempty : ¬ geometry.threadsPerBlock * kernel.blockSize = 0 :=
      (Nat.mul_pos positive fits.positive).ne'
    have long : ¬ (filled.iterate.size < rows * kernel.blockSize ∨
        filled.previous.size < rows * kernel.blockSize) :=
      not_or.mpr ⟨Nat.not_lt.mpr iterateLong, Nat.not_lt.mpr previousLong⟩
    unfold fusedRelaxInOrder
    rw [relax_in_order_reached kernel sources geometry rows fun block member =>
      ((active block).mp member).2]
    rw [get_bind, if_neg (Nat.not_lt.mpr partialsLong)]
    dsimp only
    rw [modify_bind, get_bind, get_bind, if_neg long, if_neg nonempty]
    exact ran
  · rw [relaxed.partialsSize]
    exact Storage.size_fill ..
  · intro row k bound
    rw [relaxed.iterate row k bound, updated]
  · intro row k bound
    rw [relaxed.previous row k bound, updated]
  · -- a partial that no block reduces keeps the zero it was filled with
    intro block
    rw [relaxed.partials block, Storage.getElem?_fill]
    by_cases listed : block < geometry.blocks
    · by_cases rowed : block * geometry.threadsPerBlock < rows
      · simp only [done, listed, rowed, and_self, if_true, Option.map_map,
          scratch_reached kernel sources rows _ listed]
        rfl
      · simp only [done, listed, rowed, and_true, if_false, if_true]
    · simp only [done, listed, and_false, if_false]

theorem fused_relax_run {kernel : Kernel} {geometry : Geometry} {rows : Nat}
    {sources : Sources α} {old : Workspace α}
    (fits : Fits kernel sources geometry.threadsPerBlock rows old)
    (partialsLong : geometry.blocks ≤ old.partials.size) :
    ∃ new, fusedRelax kernel geometry rows sources old = (.ok (), new) ∧
      Launched kernel geometry rows sources old new := by
  have fewer : reached geometry rows * kernel.blockSize ≤ rows * kernel.blockSize :=
    Nat.mul_le_mul_right _ (Nat.min_le_left ..)
  have enough : Fits kernel sources geometry.threadsPerBlock (reached geometry rows) old :=
    ⟨fits.covered.mono (Nat.min_le_left ..), fits.positive, fits.width,
      fewer.trans fits.iterateLong, fewer.trans fits.previousLong⟩
  rw [fused_relax_eq_in_order]
  exact fused_relax_in_order_run enough fits.iterateLong fits.previousLong partialsLong
    (List.Perm.refl _)

end Relaxation.Launch

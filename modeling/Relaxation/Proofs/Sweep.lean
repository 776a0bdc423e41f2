import Relaxation.Device.Operator
import Relaxation.Proofs.Device
import Relaxation.Proofs.Product

/-!
One sweep on a device. On buffers that are apart it computes the new values of every
row from what the buffers held before, puts them into the iterate and the previous
iterate, and touches nothing else but its partial sums and its residual.
-/

namespace Relaxation

variable {α : Type}

namespace Device

theorem contents_store_sized {device : Device α} {buffer : Buffer} {values : Array α}
    (same : values.size = (device.contents buffer).size) :
    (device.store buffer values).contents buffer = values := by
  by_cases held : device.Holds buffer
  · exact contents_store_same held values
  · -- a buffer that was never given out has no values
    have outside : device.buffers.size ≤ buffer.index := Nat.not_lt.mp held
    have empty : values = #[] := by
      rw [← Array.size_eq_zero_iff, same]
      simp [contents, Array.getD_eq_getD_getElem?, outside]
    subst empty
    simp [contents, store, Array.getD_eq_getD_getElem?, outside]

structure Separate (sweep : Sweep) : Prop where
  apart : Apart sweep
  residual : sweep.residual ∉ [sweep.partials, sweep.previous, sweep.iterate, sweep.diagonal,
    sweep.inverse, sweep.rhs]

structure Ready (sweep : Sweep) (device : Device α) : Prop where
  positive : 0 < sweep.kernel.blockSize
  small : sweep.kernel.blockSize ≤ maxBlockSize
  geometry : sweep.geometry = device.geometry sweep.rows
  long : device.longEnough sweep = true
  single : 0 < (device.contents sweep.residual).size

theorem Ready.of_sizes {sweep : Sweep} {left right : Device α} (ready : Ready sweep left)
    (width : right.width = left.width) (sizes : right.sizes = left.sizes) : Ready sweep right where
  positive := ready.positive
  small := ready.small
  geometry := by rw [ready.geometry, Device.geometry, Device.geometry, width]
  long := by
    have long := ready.long
    unfold longEnough at long ⊢
    simpa only [size_contents_of_sizes sizes] using long
  single := size_contents_of_sizes sizes sweep.residual ▸ ready.single

theorem Ready.width {sweep : Sweep} {device : Device α} (ready : Ready sweep device) :
    Reduction.validWidth sweep.geometry.threadsPerBlock = true := by
  rw [ready.geometry]
  exact device.width.valid_width

end Device

namespace Launch

variable [Arithmetic α]

def relaxed (kernel : Kernel) (sources : Sources α) (rows : Nat) (iterate previous : Array α) :
    List α :=
  (List.range rows).flatMap fun row => (kernel.rowUpdate sources iterate previous row).values

theorem length_relaxed {kernel : Kernel} {rows : Nat} {sources : Sources α}
    {iterate previous : Array α} (covered : kernel.Covered rows sources)
    (iterateLong : rows * kernel.blockSize ≤ iterate.size)
    (previousLong : rows * kernel.blockSize ≤ previous.size) :
    (relaxed kernel sources rows iterate previous).length = rows * kernel.blockSize :=
  length_flatMap_uniform _ _ _ fun _ inside =>
    Kernel.length_row_update covered inside iterateLong previousLong

theorem row_in_cover (rows : Nat) {threads row : Nat} (positive : 0 < threads)
    (inside : row < rows) : row / threads < (Geometry.cover rows threads).blocks := by
  have enough : row / threads < (rows + threads - 1) / threads := by
    rw [Nat.lt_iff_add_one_le, Nat.le_div_iff_mul_le positive, Nat.succ_mul]
    have below := Nat.div_mul_le_self row threads
    omega
  exact lt_of_lt_of_le enough (le_max_left _ _)

theorem if_in_cover {β : Type} {threads rows row : Nat} (positive : 0 < threads)
    (updated kept : β) :
    (if row < rows ∧ row / threads < (Geometry.cover rows threads).blocks then updated else kept) =
      if row < rows then updated else kept := by
  by_cases inside : row < rows
  · rw [if_pos ⟨inside, row_in_cover rows positive inside⟩, if_pos inside]
  · rw [if_neg fun hit => inside hit.1, if_neg inside]

omit [Arithmetic α] in
theorem eq_overwrite {values updated : Array α} {rows width : Nat} {pieces : Nat → List α}
    (positive : 0 < width) (long : rows * width ≤ values.size)
    (uniform : ∀ row, row < rows → (pieces row).length = width)
    (found : ∀ row k, k < width → updated[row * width + k]? =
      if row < rows then (pieces row)[k]? else values[row * width + k]?) :
    updated = Storage.overwrite values 0 ((List.range rows).flatMap pieces) := by
  have length := length_flatMap_uniform pieces width rows uniform
  apply Array.ext_getElem?
  intro index
  -- every position is a component of some row
  have split : index / width * width + index % width = index := Nat.div_add_mod' index width
  have bound := Nat.mod_lt index positive
  have here := found (index / width) (index % width) bound
  rw [split] at here
  rw [here]
  by_cases inside : index / width < rows
  · have fits := Kernel.row_end_le width inside
    rw [if_pos inside, Storage.getElem?_overwrite_front values (by omega) (by omega),
      ← getElem?_flatMap_uniform pieces width rows uniform inside bound, split]
  · have beyond : rows * width ≤ index := by
      have steps := Nat.mul_le_mul_right width (Nat.not_lt.mp inside)
      omega
    rw [if_neg inside, Storage.getElem?_overwrite_outside _ _ _ (.inr (by omega))]

section Finished

variable {kernel : Kernel} {rows threads : Nat} {sources : Sources α} {old new : Workspace α}

theorem Launched.iterate_eq
    (launched : Launched kernel (.cover rows threads) rows sources old new)
    (fits : Fits kernel sources threads rows old) :
    new.iterate = Storage.overwrite old.iterate 0
      (relaxed kernel sources rows old.iterate old.previous) := by
  have wide := Reduction.valid_width_le fits.width
  have positive : 0 < threads := by omega
  apply eq_overwrite fits.positive fits.iterateLong
  · intro row inside
    exact Kernel.length_row_update fits.covered inside fits.iterateLong fits.previousLong
  · intro row k bound
    rw [launched.iterate row k bound]
    exact if_in_cover positive _ _

theorem Launched.previous_eq
    (launched : Launched kernel (.cover rows threads) rows sources old new)
    (fits : Fits kernel sources threads rows old) :
    new.previous = Storage.overwrite old.previous 0
      (relaxed kernel sources rows old.iterate old.previous) := by
  have wide := Reduction.valid_width_le fits.width
  have positive : 0 < threads := by omega
  apply eq_overwrite fits.positive fits.previousLong
  · intro row inside
    exact Kernel.length_row_update fits.covered inside fits.iterateLong fits.previousLong
  · intro row k bound
    rw [launched.previous row k bound]
    exact if_in_cover positive _ _

/-- Both reduction levels of a launch, over what each of its rows adds. -/
def levels (geometry : Geometry) (rows : Nat) (added : Nat → α) : α :=
  Reduction.partialsTotal
    ((List.range geometry.blocks).map fun block =>
      if block * geometry.threadsPerBlock < rows then
        Reduction.blockTotal ((List.range geometry.threadsPerBlock).map fun thread =>
          if block * geometry.threadsPerBlock + thread < rows then
            added (block * geometry.threadsPerBlock + thread)
          else 0).toArray
      else 0).toArray
    geometry.threadsPerBlock

theorem levels_congr {geometry : Geometry} {rows : Nat} {first second : Nat → α}
    (same : ∀ row, row < rows → first row = second row) :
    levels geometry rows first = levels geometry rows second := by
  have added : ∀ row, (if row < rows then first row else 0) =
      if row < rows then second row else 0 := by
    intro row
    split
    · exact same row ‹_›
    · rfl
  simp only [levels, added]

def blockSums (kernel : Kernel) (sources : Sources α) (geometry : Geometry) (rows : Nat)
    (old : Workspace α) : Array α :=
  ((List.range geometry.blocks).map fun block =>
    if block * geometry.threadsPerBlock < rows then
      Reduction.blockTotal (scratch kernel sources geometry.threadsPerBlock rows old block)
    else 0).toArray

theorem partials_total_eq (kernel : Kernel) (sources : Sources α) (geometry : Geometry) (rows : Nat)
    (old : Workspace α) :
    Reduction.partialsTotal (blockSums kernel sources geometry rows old)
      geometry.threadsPerBlock =
        levels geometry rows fun row =>
          (kernel.rowUpdate sources old.iterate old.previous row).square :=
  rfl

theorem Launched.partials_eq {geometry : Geometry}
    (launched : Launched kernel geometry rows sources old new)
    (long : geometry.blocks ≤ old.partials.size) :
    new.partials.extract 0 (min geometry.blocks new.partials.size) =
      blockSums kernel sources geometry rows old := by
  apply Array.ext_getElem?
  intro block
  rw [launched.partialsSize, Nat.min_eq_left long, Array.getElem?_extract]
  by_cases listed : block < geometry.blocks
  · have held : block < old.partials.size := by omega
    simp only [blockSums, launched.partialsSize, Nat.min_eq_left long, Nat.sub_zero, listed,
      Nat.zero_add, launched.partials block, if_true, Array.getElem?_eq_getElem held,
      Option.map_some, List.getElem?_toArray, List.getElem?_map, List.getElem?_range listed]
  · have beyond : geometry.blocks ≤ block := Nat.not_lt.mp listed
    simp [blockSums, launched.partialsSize, Nat.min_eq_left long, listed]

end Finished
end Launch

namespace Device

variable [Arithmetic α] {device : Device α} {sweep : Sweep} {workspace : Workspace α}

theorem contents_restore (apart : Apart sweep)
    (launched : Launch.Launched sweep.kernel sweep.geometry sweep.rows (device.sources sweep)
      (device.workspace sweep) workspace) :
    (device.restore sweep workspace).contents sweep.iterate = workspace.iterate ∧
      (device.restore sweep workspace).contents sweep.previous = workspace.previous ∧
      (device.restore sweep workspace).contents sweep.partials = workspace.partials ∧
      ∀ other, other ∉ [sweep.iterate, sweep.previous, sweep.partials] →
        (device.restore sweep workspace).contents other = device.contents other := by
  obtain ⟨previous, partials, partials'⟩ := apart.written
  unfold restore
  refine ⟨?_, ?_, ?_, fun other elsewhere => ?_⟩
  · rw [contents_store_other _ partials.symm, contents_store_other _ previous.symm,
      contents_store_sized launched.iterateSize]
  · rw [contents_store_other _ partials'.symm, contents_store_sized]
    rw [contents_store_other _ previous]
    exact launched.previousSize
  · rw [contents_store_sized]
    rw [contents_store_other _ partials', contents_store_other _ partials]
    exact launched.partialsSize
  · simp only [List.mem_cons, List.not_mem_nil, or_false, not_or] at elsewhere
    rw [contents_store_other _ (Ne.symm elsewhere.2.2),
      contents_store_other _ (Ne.symm elsewhere.2.1), contents_store_other _ (Ne.symm elsewhere.1)]

structure Swept (sweep : Sweep) (before after : Device α) : Prop where
  width : after.width = before.width
  sizes : after.sizes = before.sizes
  iterate : after.contents sweep.iterate = Storage.overwrite (before.contents sweep.iterate) 0
    (Launch.relaxed sweep.kernel (before.sources sweep) sweep.rows (before.contents sweep.iterate)
      (before.contents sweep.previous))
  previous : after.contents sweep.previous = Storage.overwrite (before.contents sweep.previous) 0
    (Launch.relaxed sweep.kernel (before.sources sweep) sweep.rows (before.contents sweep.iterate)
      (before.contents sweep.previous))
  residual : (after.contents sweep.residual)[0]? = some (Reduction.partialsTotal
    (Launch.blockSums sweep.kernel (before.sources sweep) sweep.geometry sweep.rows
      (before.workspace sweep)) sweep.geometry.threadsPerBlock)
  others : ∀ other, other ∉ [sweep.iterate, sweep.previous, sweep.partials, sweep.residual] →
    after.contents other = before.contents other

theorem not_mem_of_residual (separate : Separate sweep) :
    sweep.residual ≠ sweep.partials ∧ sweep.residual ≠ sweep.previous ∧
      sweep.residual ≠ sweep.iterate := by
  have apart := separate.residual
  simp only [List.mem_cons, not_or] at apart
  exact ⟨apart.1, apart.2.1, apart.2.2.1⟩

theorem launches_run (separate : Separate sweep) (ready : Ready sweep device) :
    ∃ after, (do launchRelax sweep; launchReduce sweep : DeviceM α Unit) device =
      (.ok (), after) ∧ Swept sweep device after := by
  generalize counted : device.count
    (fun counters => { counters with dispatches := counters.dispatches + 1 }) = first
  have same : first.width = device.width ∧ first.sizes = device.sizes ∧
      first.sources sweep = device.sources sweep ∧
      first.workspace sweep = device.workspace sweep ∧
      ∀ buffer, first.contents buffer = device.contents buffer := by
    subst counted
    exact ⟨rfl, rfl, rfl, rfl, fun _ => rfl⟩
  obtain ⟨width, sizes, sources, workspace, contents⟩ := same
  have still := ready.of_sizes width sizes
  obtain ⟨fits, partialsLong⟩ := fits_of_long_enough still.positive still.small still.width still.long
  obtain ⟨launched, ran, finished⟩ := run_relax_ok separate.apart still.long still.positive
    still.small still.width
  obtain ⟨atIterate, atPrevious, atPartials, elsewhere⟩ := contents_restore separate.apart finished
  have kept := sizes_restore separate.apart finished
  -- the reduction starts on what the relaxation left, counted once more
  generalize second : (first.restore sweep launched).count
    (fun counters => { counters with dispatches := counters.dispatches + 1 }) = middle
  have again : middle.width = first.width ∧ middle.sizes = first.sizes ∧
      ∀ buffer, middle.contents buffer = (first.restore sweep launched).contents buffer := by
    subst second
    exact ⟨rfl, kept, fun _ => rfl⟩
  obtain ⟨width', sizes', contents'⟩ := again
  have last := still.of_sizes width' sizes'
  obtain ⟨fromPartials, fromPrevious, fromIterate⟩ := not_mem_of_residual separate
  have total : middle.reduced sweep = Reduction.partialsTotal
      (Launch.blockSums sweep.kernel (device.sources sweep) sweep.geometry sweep.rows
        (device.workspace sweep)) sweep.geometry.threadsPerBlock := by
    unfold reduced
    rw [contents', atPartials, finished.partials_eq partialsLong, sources, workspace]
  have cover : sweep.geometry = .cover sweep.rows sweep.geometry.threadsPerBlock := by
    rw [ready.geometry]
    rfl
  have values := finished
  rw [cover] at values
  refine ⟨middle.store sweep.residual
    ((middle.contents sweep.residual).setIfInBounds 0 (middle.reduced sweep)), ?_, ?_⟩
  · have relaxed : (launchRelax sweep : DeviceM α Unit) device =
        (.ok (), first.restore sweep launched) := by
      unfold launchRelax
      rw [← ran, ← counted]
      rfl
    have reduced : (launchReduce sweep : DeviceM α Unit) (first.restore sweep launched) =
        runReduce sweep middle := by
      rw [← second]
      rfl
    rw [bind_of_ok relaxed, reduced, run_reduce_ok fromPartials last.width last.single]
  · refine ⟨width'.trans width, ?_, ?_, ?_, ?_, fun other apart => ?_⟩
    · rw [sizes_store (by simp), sizes', sizes]
    · rw [contents_store_other _ fromIterate, contents', atIterate, values.iterate_eq fits,
        sources, workspace]
      rfl
    · rw [contents_store_other _ fromPrevious, contents', atPrevious, values.previous_eq fits,
        sources, workspace]
      rfl
    · rw [contents_store_sized (by simp), total, Array.getElem?_setIfInBounds_self]
      simp [last.single]
    · simp only [List.mem_cons, List.not_mem_nil, or_false, not_or] at apart
      rw [contents_store_other _ (Ne.symm apart.2.2.2), contents',
        elsewhere other (by simp [apart.1, apart.2.1, apart.2.2.1]), contents]

end Device
end Relaxation

import Relaxation.Device
import Relaxation.Proofs.Launch

/-!
What the launches of a sweep do to the buffers of a device: which calls are
refused, which values the others leave, and that none of them faults.
-/

namespace Relaxation

def BlockWidth.narrowest : BlockWidth :=
  ⟨64, by decide⟩

theorem BlockWidth.valid_width (width : BlockWidth) :
    Reduction.validWidth width.threads = true := by
  obtain ⟨power, low, _⟩ := width.valid
  unfold Reduction.validWidth
  exact Bool.and_eq_true_iff.mpr ⟨power, decide_eq_true low⟩

namespace Device

variable {α : Type}

theorem buffer_index_ne {left right : Buffer} (different : left ≠ right) :
    left.index ≠ right.index := by
  intro same
  cases left
  cases right
  exact different (congrArg Buffer.mk same)

theorem contents_store_same {device : Device α} {buffer : Buffer} (held : device.Holds buffer)
    (values : Array α) : (device.store buffer values).contents buffer = values := by
  have inside : buffer.index < device.buffers.size := held
  simp [contents, store, Array.getD_eq_getD_getElem?, inside]

theorem contents_store_other (device : Device α) {buffer other : Buffer}
    (different : buffer ≠ other) (values : Array α) :
    (device.store buffer values).contents other = device.contents other := by
  have index := buffer_index_ne different
  simp [contents, store, Array.getD_eq_getD_getElem?, index]

instance (device : Device α) (buffer : Buffer) : Decidable (device.Holds buffer) :=
  inferInstanceAs (Decidable (buffer.index < device.buffers.size))

@[simp] theorem holds_store (device : Device α) (buffer other : Buffer) (values : Array α) :
    (device.store buffer values).Holds other ↔ device.Holds other := by
  simp [Holds, store]

@[simp] theorem store_contents (device : Device α) (buffer : Buffer) :
    device.store buffer (device.contents buffer) = device := by
  unfold store
  congr 1
  apply Array.ext_getElem?
  intro index
  rw [Array.getElem?_setIfInBounds]
  by_cases here : buffer.index = index
  · subst here
    by_cases inside : buffer.index < device.buffers.size
    · simp [inside, contents, Array.getD_eq_getD_getElem?]
    · simp [inside]
  · simp [here]

@[simp] theorem width_store (device : Device α) (buffer : Buffer) (values : Array α) :
    (device.store buffer values).width = device.width :=
  rfl

def sizes (device : Device α) : Array Nat :=
  device.buffers.map Array.size

theorem sizes_store {device : Device α} {buffer : Buffer} {values : Array α}
    (same : values.size = (device.contents buffer).size) :
    (device.store buffer values).sizes = device.sizes := by
  apply Array.ext_getElem?
  intro index
  simp only [sizes, store, Array.getElem?_map, Array.getElem?_setIfInBounds]
  by_cases here : buffer.index = index
  · subst here
    by_cases inside : buffer.index < device.buffers.size
    · simp [inside, same, contents, Array.getD_eq_getD_getElem?]
    · simp [inside]
  · simp [here]

theorem size_contents_of_sizes {left right : Device α} (same : left.sizes = right.sizes)
    (buffer : Buffer) : (left.contents buffer).size = (right.contents buffer).size := by
  have size : ∀ device : Device α,
      (device.contents buffer).size = device.sizes.getD buffer.index 0 := by
    intro device
    cases found : device.buffers[buffer.index]? <;>
      simp [contents, sizes, Array.getD_eq_getD_getElem?, found]
  rw [size, size, same]

theorem holds_of_sizes {left right : Device α} (same : left.sizes = right.sizes) {buffer : Buffer}
    (held : right.Holds buffer) : left.Holds buffer := by
  have count : left.buffers.size = right.buffers.size := by
    simpa [sizes] using congrArg Array.size same
  unfold Holds at held ⊢
  rwa [count]

structure Apart (sweep : Sweep) : Prop where
  iterate : sweep.iterate ∉ [sweep.diagonal, sweep.inverse, sweep.rhs]
  previous : sweep.previous ∉ [sweep.iterate, sweep.diagonal, sweep.inverse, sweep.rhs]
  partials : sweep.partials ∉
    [sweep.previous, sweep.iterate, sweep.diagonal, sweep.inverse, sweep.rhs]

theorem Apart.written {sweep : Sweep} (apart : Apart sweep) :
    sweep.iterate ≠ sweep.previous ∧ sweep.iterate ≠ sweep.partials ∧
      sweep.previous ≠ sweep.partials :=
  ⟨fun same => apart.previous (same ▸ List.mem_cons_self),
    fun same => apart.partials (same ▸ List.mem_cons_of_mem _ List.mem_cons_self),
    fun same => apart.partials (same ▸ List.mem_cons_self)⟩

theorem claim_apart {role : Role} {buffer : Buffer} {taken : List Buffer}
    (apart : buffer ∉ taken) (device : Device α) :
    claim role buffer taken device = (.ok (), device) := by
  unfold claim
  rw [if_neg apart]
  rfl

theorem claim_taken {role : Role} {buffer : Buffer} {taken : List Buffer}
    (overlaps : buffer ∈ taken) (device : Device α) :
    claim role buffer taken device = (.error (.refused (.aliased role)), device) := by
  unfold claim
  rw [if_pos overlaps]
  rfl

theorem fits_of_long_enough {device : Device α} {sweep : Sweep}
    (positive : 0 < sweep.kernel.blockSize) (small : sweep.kernel.blockSize ≤ maxBlockSize)
    (width : Reduction.validWidth sweep.geometry.threadsPerBlock = true)
    (long : device.longEnough sweep = true) :
    Launch.Fits sweep.kernel (device.sources sweep) sweep.geometry.threadsPerBlock sweep.rows
        (device.workspace sweep) ∧
      sweep.geometry.blocks ≤ (device.workspace sweep).partials.size := by
  unfold longEnough at long
  simp only [Bool.and_eq_true, decide_eq_true_eq] at long
  obtain ⟨⟨⟨⟨⟨diagonal, inverse⟩, rhs⟩, iterate⟩, previous⟩, partials⟩ := long
  exact ⟨⟨⟨small, diagonal, inverse, rhs⟩, positive, width, iterate, previous⟩, partials⟩

theorem long_enough_of_covered {device : Device α} {sweep : Sweep}
    (covered : sweep.kernel.Covered sweep.rows (device.sources sweep))
    (iterate : sweep.rows * sweep.kernel.blockSize ≤ (device.contents sweep.iterate).size)
    (previous : sweep.rows * sweep.kernel.blockSize ≤ (device.contents sweep.previous).size)
    (partials : sweep.geometry.blocks ≤ (device.contents sweep.partials).size) :
    device.longEnough sweep = true := by
  have diagonal := covered.diagonal
  have inverse := covered.inverse
  have rhs := covered.rhs
  unfold longEnough
  simp only [Bool.and_eq_true]
  exact ⟨⟨⟨⟨⟨decide_eq_true diagonal, decide_eq_true inverse⟩, decide_eq_true rhs⟩,
    decide_eq_true iterate⟩, decide_eq_true previous⟩, decide_eq_true partials⟩

variable [Arithmetic α]

theorem run_relax_ok {device : Device α} {sweep : Sweep} (apart : Apart sweep)
    (long : device.longEnough sweep = true) (positive : 0 < sweep.kernel.blockSize)
    (small : sweep.kernel.blockSize ≤ maxBlockSize)
    (width : Reduction.validWidth sweep.geometry.threadsPerBlock = true) :
    ∃ workspace, runRelax sweep device = (.ok (), device.restore sweep workspace) ∧
      Launch.Launched sweep.kernel sweep.geometry sweep.rows (device.sources sweep)
        (device.workspace sweep) workspace := by
  obtain ⟨fits, partialsLong⟩ := fits_of_long_enough positive small width long
  obtain ⟨workspace, ran, launched⟩ := Launch.fused_relax_run fits partialsLong
  refine ⟨workspace, ?_, launched⟩
  unfold runRelax
  rw [bind_of_ok (claim_apart apart.iterate device), bind_of_ok (claim_apart apart.previous device),
    bind_of_ok (claim_apart apart.partials device), get_bind, if_pos long]
  dsimp only [ExceptT.run]
  rw [ran]
  rfl

theorem run_relax_too_short {device : Device α} {sweep : Sweep} (apart : Apart sweep)
    (short : device.longEnough sweep = false) :
    runRelax sweep device = (.error (.refused .launchTooShort), device) := by
  unfold runRelax
  rw [bind_of_ok (claim_apart apart.iterate device), bind_of_ok (claim_apart apart.previous device),
    bind_of_ok (claim_apart apart.partials device), get_bind, if_neg (by simp [short])]
  rfl

theorem run_relax_overlapping {device : Device α} {sweep : Sweep} (overlap : ¬ Apart sweep) :
    ∃ role, runRelax sweep device = (.error (.refused (.aliased role)), device) := by
  unfold runRelax
  by_cases iterate : sweep.iterate ∈ [sweep.diagonal, sweep.inverse, sweep.rhs]
  · exact ⟨_, bind_of_error (claim_taken iterate device)⟩
  rw [bind_of_ok (claim_apart iterate device)]
  by_cases previous : sweep.previous ∈
      [sweep.iterate, sweep.diagonal, sweep.inverse, sweep.rhs]
  · exact ⟨_, bind_of_error (claim_taken previous device)⟩
  rw [bind_of_ok (claim_apart previous device)]
  by_cases partials : sweep.partials ∈
      [sweep.previous, sweep.iterate, sweep.diagonal, sweep.inverse, sweep.rhs]
  · exact ⟨_, bind_of_error (claim_taken partials device)⟩
  exact absurd ⟨iterate, previous, partials⟩ overlap

theorem run_relax_cases (device : Device α) (sweep : Sweep) (positive : 0 < sweep.kernel.blockSize)
    (small : sweep.kernel.blockSize ≤ maxBlockSize)
    (width : Reduction.validWidth sweep.geometry.threadsPerBlock = true) :
    (∃ refusal, runRelax sweep device = (.error (.refused refusal), device)) ∨
      ∃ workspace, runRelax sweep device = (.ok (), device.restore sweep workspace) ∧
        Apart sweep ∧ Launch.Launched sweep.kernel sweep.geometry sweep.rows
          (device.sources sweep) (device.workspace sweep) workspace := by
  by_cases apart : Apart sweep
  · cases long : device.longEnough sweep with
    | false => exact .inl ⟨_, run_relax_too_short apart long⟩
    | true =>
        obtain ⟨workspace, ran, launched⟩ := run_relax_ok apart long positive small width
        exact .inr ⟨workspace, ran, apart, launched⟩
  · obtain ⟨role, ran⟩ : ∃ role, runRelax sweep device =
        (.error (.refused (.aliased role)), device) := run_relax_overlapping apart
    exact .inl ⟨_, ran⟩

theorem sizes_restore {device : Device α} {sweep : Sweep} {workspace : Workspace α}
    (apart : Apart sweep)
    (launched : Launch.Launched sweep.kernel sweep.geometry sweep.rows (device.sources sweep)
      (device.workspace sweep) workspace) :
    (device.restore sweep workspace).sizes = device.sizes := by
  obtain ⟨previous, partials, partials'⟩ := apart.written
  unfold restore
  -- apart from the other two, each buffer is stored over the values it had
  rw [sizes_store, sizes_store, sizes_store]
  · exact launched.iterateSize
  · rw [contents_store_other _ previous]
    exact launched.previousSize
  · rw [contents_store_other _ partials', contents_store_other _ partials]
    exact launched.partialsSize

def reduced (device : Device α) (sweep : Sweep) : α :=
  Reduction.partialsTotal
    ((device.contents sweep.partials).extract 0
      (min sweep.geometry.blocks (device.contents sweep.partials).size))
    sweep.geometry.threadsPerBlock

theorem run_reduce_ok {device : Device α} {sweep : Sweep} (apart : sweep.residual ≠ sweep.partials)
    (width : Reduction.validWidth sweep.geometry.threadsPerBlock = true)
    (single : 0 < (device.contents sweep.residual).size) :
    runReduce sweep device = (.ok (), device.store sweep.residual
      ((device.contents sweep.residual).setIfInBounds 0 (device.reduced sweep))) := by
  have nonempty : ¬ (device.contents sweep.residual).isEmpty := by
    simpa [Array.isEmpty_iff_size_eq_zero] using single.ne'
  unfold runReduce
  rw [bind_of_ok (claim_apart (by simpa using apart) device), get_bind,
    Reduction.reduce_partials_total _ width]
  change (if _ then _ else _ : DeviceM α Unit) device = _
  rw [if_neg nonempty]
  rfl

theorem run_reduce_overlapping {device : Device α} {sweep : Sweep}
    (overlap : sweep.residual = sweep.partials) :
    runReduce sweep device = (.error (.refused (.aliased .residual)), device) :=
  bind_of_error (claim_taken (by simp [overlap]) device)

/-- A call that does not change what `view` shows of the device. -/
def Keeps {β δ : Type} (view : Device α → δ) (call : DeviceM α β) : Prop :=
  ∀ device, view (call device).2 = view device

section Keeps

variable {β γ δ : Type} {view : Device α → δ}

omit [Arithmetic α] in
theorem Keeps.ofBind {first : DeviceM α β} {next : β → DeviceM α γ}
    (keeps : Keeps view first) (later : ∀ result, Keeps view (next result)) :
    Keeps view (first >>= next) := by
  intro device
  have before := keeps device
  generalize ran : first device = answer at before
  obtain ⟨outcome, after⟩ := answer
  cases outcome with
  | ok result =>
      rw [bind_of_ok ran]
      exact (later result after).trans before
  | error failure =>
      rw [bind_of_error ran]
      exact before

omit [Arithmetic α] in
theorem Keeps.ofGet {next : Device α → DeviceM α γ}
    (later : ∀ device : Device α, view (next device device).2 = view device) :
    Keeps view (get >>= next) := fun device => later device

omit [Arithmetic α] in
theorem Keeps.ofModify {change : Device α → Device α}
    (unchanged : ∀ device, view (change device) = view device) :
    Keeps view (modify change : DeviceM α PUnit) := fun device => unchanged device

omit [Arithmetic α] in
theorem keeps_claim (role : Role) (buffer : Buffer) (taken : List Buffer) :
    Keeps view (claim role buffer taken : DeviceM α Unit) := by
  intro device
  unfold claim
  split <;> rfl

theorem keeps_run_relax (sweep : Sweep)
    (restored : ∀ (device : Device α) workspace, view (device.restore sweep workspace) = view device) :
    Keeps view (runRelax sweep : DeviceM α Unit) := by
  refine Keeps.ofBind (keeps_claim _ _ _) fun _ => Keeps.ofBind (keeps_claim _ _ _)
    fun _ => Keeps.ofBind (keeps_claim _ _ _) fun _ => .ofGet fun device => ?_
  by_cases long : device.longEnough sweep = true
  · rw [if_pos long]
    dsimp only [ExceptT.run]
    generalize Launch.fusedRelax sweep.kernel sweep.geometry sweep.rows (device.sources sweep)
      (device.workspace sweep) = launched
    obtain ⟨outcome | fault, workspace⟩ := launched <;> exact restored device workspace
  · rw [if_neg long]
    rfl

theorem keeps_run_reduce (sweep : Sweep)
    (stored : ∀ (device : Device α) values, view (device.store sweep.residual values) = view device) :
    Keeps view (runReduce sweep : DeviceM α Unit) := by
  refine Keeps.ofBind (keeps_claim _ _ _) fun _ => .ofGet fun device => ?_
  dsimp only
  generalize (Reduction.reducePartials _ _ : Except Fault α) = reduced
  cases reduced with
  | error fault => rfl
  | ok total =>
      change view ((if _ then _ else _ : DeviceM α Unit) device).2 = _
      split
      · rfl
      · exact stored device _

omit [Arithmetic α] in
theorem keeps_for_each {launch : LaunchStep → DeviceM α Unit}
    (keeps : ∀ step, Keeps view (launch step)) (steps : List LaunchStep) :
    Keeps view (steps.forM launch) := by
  induction steps with
  | nil => exact fun _ => rfl
  | cons step rest ih => exact Keeps.ofBind (keeps step) fun _ => ih

theorem captures_replay (graph : Graph) (device : Device α) :
    (replay graph device).2.counters.captures = device.counters.captures := by
  unfold replay
  rw [modify_bind]
  refine (keeps_for_each (fun step => ?_) graph.steps :
    Keeps (fun device : Device α => device.counters.captures) _) _
  cases step with
  | relax => exact keeps_run_relax graph.sweep fun _ _ => rfl
  | reduce => exact keeps_run_reduce graph.sweep fun _ _ => rfl

end Keeps

end Device
end Relaxation

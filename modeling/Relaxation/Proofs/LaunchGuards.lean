import Relaxation.Proofs.BlockOrder
import Relaxation.Proofs.Sweep

/-!
How launches guard the buffers they are given. Handles may name the same buffer in any way. A
launch is refused just when it would write to a buffer that it uses otherwise as well, or when a
buffer is too short for it, and then it has written nothing; else it ends, and nothing but the
front of its outputs has changed.
-/

namespace Relaxation.Device

variable {α : Type}

/-- No buffer that was given out is empty. -/
def Stocked (device : Device α) : Prop :=
  0 ∉ device.sizes

section Stocked

variable {device after : Device α}

theorem stocked_create (width : BlockWidth) : (create width : Device α).Stocked := by
  simp [Stocked, sizes, create]

theorem Stocked.of_sizes (stocked : device.Stocked) (same : after.sizes = device.sizes) :
    after.Stocked := by
  rwa [Stocked, same]

theorem Stocked.single (stocked : device.Stocked) {buffer : Buffer} (held : device.Holds buffer) :
    0 < (device.contents buffer).size := by
  have inside : buffer.index < device.buffers.size := held
  apply Nat.pos_of_ne_zero
  intro empty
  apply stocked
  rw [← empty]
  simp only [contents, sizes, Array.getD_eq_getD_getElem?, Array.getElem?_eq_getElem inside,
    Option.getD_some]
  exact Array.mem_map_of_mem (Array.getElem_mem inside)

theorem Stocked.adopt (stocked : device.Stocked) {values : Array α} (some : 0 < values.size) :
    (adopt values device).2.Stocked := by
  change 0 ∉ (device.buffers.push values).map Array.size
  rw [Array.map_push, Array.mem_push, not_or]
  exact ⟨stocked, Nat.ne_of_lt some⟩

variable [Arithmetic α]

theorem Stocked.alloc (stocked : device.Stocked) (length : Nat) :
    (alloc length device).2.Stocked :=
  stocked.adopt (by simp)

theorem Stocked.upload (stocked : device.Stocked) (values : Array α) :
    (upload values device).2.Stocked := by
  unfold Device.upload
  by_cases empty : values.isEmpty = true
  · rw [if_pos empty]
    exact stocked.alloc 0
  · rw [if_neg empty]
    apply stocked.adopt
    simpa [Nat.pos_iff_ne_zero] using empty

end Stocked

structure ChangesOnly (fronts : List (Buffer × Nat)) (before after : Device α) : Prop where
  sizes : after.sizes = before.sizes
  others : ∀ buffer index, (∀ front ∈ fronts, front.1 = buffer → front.2 ≤ index) →
    (after.contents buffer)[index]? = (before.contents buffer)[index]?

/-- A call that is refused just when its buffers are unfit for it, and then leaves them all as
they were. Else it is done, and has changed values at the front of some buffers only. -/
structure Guards (unfit : Prop) (fronts : List (Buffer × Nat)) (call : DeviceM α Unit)
    (device : Device α) : Prop where
  refused_iff : (∃ refusal, (call device).1 = .error (.refused refusal)) ↔ unfit
  done_iff : (call device).1 = .ok () ↔ ¬unfit
  untouched : unfit → (call device).2.buffers = device.buffers
  changes : ¬unfit → ChangesOnly fronts device (call device).2

theorem Guards.of_refused {unfit : Prop} {fronts : List (Buffer × Nat)} {call : DeviceM α Unit}
    {device after : Device α} {refusal : Refusal α} (hit : unfit)
    (ran : call device = (.error (.refused refusal), after))
    (same : after.buffers = device.buffers) : Guards unfit fronts call device where
  refused_iff := iff_of_true ⟨refusal, by rw [ran]⟩ hit
  done_iff := iff_of_false (by rw [ran]; exact fun done => nomatch done) (not_not.mpr hit)
  untouched _ := by rw [ran]; exact same
  changes fit := absurd hit fit

theorem Guards.of_done {unfit : Prop} {fronts : List (Buffer × Nat)} {call : DeviceM α Unit}
    {device after : Device α} (fit : ¬unfit) (ran : call device = (.ok (), after))
    (changes : ChangesOnly fronts device after) : Guards unfit fronts call device where
  refused_iff := iff_of_false (by rw [ran]; exact fun ⟨_, refused⟩ => nomatch refused) fit
  done_iff := iff_of_true (by rw [ran]) fit
  untouched hit := absurd hit fit
  changes _ := by rw [ran]; exact changes

theorem Guards.counted {unfit : Prop} {fronts : List (Buffer × Nat)} {call run : DeviceM α Unit}
    {device : Device α} {step : Counters → Counters}
    (guards : Guards unfit fronts run (device.count step))
    (same : call device = run (device.count step)) : Guards unfit fronts call device := by
  obtain ⟨refused, finished, untouched, changes⟩ := guards
  rw [← same] at refused finished untouched changes
  exact ⟨refused, finished, untouched, fun fit => ⟨(changes fit).sizes, (changes fit).others⟩⟩

theorem Guards.stocked {unfit : Prop} {fronts : List (Buffer × Nat)} {call : DeviceM α Unit}
    {device : Device α} (guards : Guards unfit fronts call device) (stocked : device.Stocked) :
    (call device).2.Stocked := by
  by_cases hit : unfit
  · exact stocked.of_sizes (by rw [sizes, sizes, guards.untouched hit])
  · exact stocked.of_sizes (guards.changes hit).sizes

/-- A buffer that a relaxation writes is another one of those it writes, or one that it reads. -/
def Overlapping (sweep : Sweep) : Prop :=
  sweep.iterate ∈ [sweep.previous, sweep.partials, sweep.diagonal, sweep.inverse, sweep.rhs] ∨
    sweep.previous ∈ [sweep.iterate, sweep.partials, sweep.diagonal, sweep.inverse, sweep.rhs] ∨
    sweep.partials ∈ [sweep.iterate, sweep.previous, sweep.diagonal, sweep.inverse, sweep.rhs]

def TooShort (sweep : Sweep) (device : Device α) : Prop :=
  (device.contents sweep.diagonal).size < sweep.rows * sweep.kernel.blockSize ^ 2 ∨
    (device.contents sweep.inverse).size < (match sweep.kernel with
      | .scalar => sweep.rows
      | kernel => sweep.rows * kernel.blockSize ^ 2) ∨
    (device.contents sweep.rhs).size < sweep.rows * sweep.kernel.blockSize ∨
    (device.contents sweep.iterate).size < sweep.rows * sweep.kernel.blockSize ∨
    (device.contents sweep.previous).size < sweep.rows * sweep.kernel.blockSize ∨
    (device.contents sweep.partials).size < sweep.geometry.blocks

instance (sweep : Sweep) : Decidable (Overlapping sweep) :=
  inferInstanceAs (Decidable (_ ∨ _ ∨ _))

instance (sweep : Sweep) (device : Device α) : Decidable (TooShort sweep device) :=
  inferInstanceAs (Decidable (_ ∨ _ ∨ _ ∨ _ ∨ _ ∨ _))

theorem apart_iff {sweep : Sweep} : Apart sweep ↔ ¬Overlapping sweep := by
  constructor
  · rintro ⟨iterate, previous, partials⟩
    simp only [List.mem_cons, List.not_mem_nil, or_false, not_or] at iterate previous partials
    simp only [Overlapping, List.mem_cons, List.not_mem_nil, or_false, not_or]
    exact ⟨⟨previous.1 ∘ Eq.symm, partials.2.1 ∘ Eq.symm, iterate⟩,
      ⟨previous.1, partials.1 ∘ Eq.symm, previous.2⟩, partials.2.1, partials.1, partials.2.2⟩
  · intro apart
    simp only [Overlapping, List.mem_cons, List.not_mem_nil, or_false, not_or] at apart
    obtain ⟨⟨_, _, iterate⟩, ⟨fromIterate, _, previous⟩, partials⟩ := apart
    exact ⟨by simpa using iterate, by simpa using ⟨fromIterate, previous⟩,
      by simpa using ⟨partials.2.1, partials.1, partials.2.2⟩⟩

theorem long_enough_iff {sweep : Sweep} {device : Device α} :
    device.longEnough sweep = true ↔ ¬TooShort sweep device := by
  have square : ∀ b, sweep.rows * b * b = sweep.rows * b ^ 2 := by
    intro b
    rw [pow_two, Nat.mul_assoc]
  unfold longEnough TooShort
  simp only [Bool.and_eq_true, decide_eq_true_eq, and_assoc, not_or, Nat.not_lt, square]
  cases sweep.kernel <;> rfl

section Guards

variable [Arithmetic α] {device : Device α} {sweep : Sweep}

theorem changes_only_restore {workspace : Workspace α} (apart : Apart sweep)
    (positive : 0 < sweep.kernel.blockSize)
    (launched : Launch.Launched sweep.kernel sweep.geometry sweep.rows (device.sources sweep)
      (device.workspace sweep) workspace) :
    ChangesOnly [(sweep.iterate, sweep.rows * sweep.kernel.blockSize),
      (sweep.previous, sweep.rows * sweep.kernel.blockSize),
      (sweep.partials, sweep.geometry.blocks)] device (device.restore sweep workspace) := by
  obtain ⟨atIterate, atPrevious, atPartials, elsewhere⟩ := contents_restore apart launched
  -- a position behind all rows belongs to no row that a block reaches
  have idle : ∀ {index}, sweep.rows * sweep.kernel.blockSize ≤ index →
      ¬(index / sweep.kernel.blockSize < sweep.rows ∧
        index / sweep.kernel.blockSize / sweep.geometry.threadsPerBlock < sweep.geometry.blocks) :=
    fun behind hit => absurd hit.1 (Nat.not_lt.mpr ((Nat.le_div_iff_mul_le positive).mpr behind))
  refine ⟨sizes_restore apart launched, fun buffer index behind => ?_⟩
  simp only [List.forall_mem_cons, List.not_mem_nil, false_implies, implies_true, and_true]
    at behind
  obtain ⟨iterate, previous, partials⟩ := behind
  by_cases first : sweep.iterate = buffer
  · subst first
    rw [atIterate]
    exact launched.iterate_kept positive (idle (iterate rfl))
  by_cases second : sweep.previous = buffer
  · subst second
    rw [atPrevious]
    exact launched.previous_kept positive (idle (previous rfl))
  by_cases third : sweep.partials = buffer
  · subst third
    rw [atPartials, launched.partials index, if_neg (Nat.not_lt.mpr (partials rfl))]
    rfl
  rw [elsewhere buffer (by simp [Ne.symm first, Ne.symm second, Ne.symm third])]

theorem run_relax_guards (one : 1 ≤ sweep.kernel.blockSize) (small : sweep.kernel.blockSize ≤ 9)
    (width : Reduction.validWidth sweep.geometry.threadsPerBlock = true) :
    Guards (Overlapping sweep ∨ TooShort sweep device)
      [(sweep.iterate, sweep.rows * sweep.kernel.blockSize),
        (sweep.previous, sweep.rows * sweep.kernel.blockSize),
        (sweep.partials, sweep.geometry.blocks)] (runRelax sweep) device := by
  by_cases overlap : Overlapping sweep
  · obtain ⟨role, ran⟩ : ∃ role, runRelax sweep device =
        (.error (.refused (.aliased role)), device) :=
      run_relax_overlapping fun apart => apart_iff.mp apart overlap
    exact .of_refused (.inl overlap) ran rfl
  have apart := apart_iff.mpr overlap
  by_cases short : TooShort sweep device
  · have refused : device.longEnough sweep = false :=
      Bool.eq_false_iff.mpr fun long => long_enough_iff.mp long short
    exact .of_refused (.inr short) (run_relax_too_short apart refused) rfl
  · obtain ⟨workspace, ran, launched⟩ :=
      run_relax_ok apart (long_enough_iff.mpr short) one small width
    exact .of_done (not_or.mpr ⟨overlap, short⟩) ran (changes_only_restore apart one launched)

omit [Arithmetic α] in
theorem changes_only_store_first {buffer : Buffer} (value : α) :
    ChangesOnly [(buffer, 1)] device
      (device.store buffer ((device.contents buffer).setIfInBounds 0 value)) := by
  refine ⟨sizes_store (by simp), fun other index behind => ?_⟩
  by_cases here : buffer = other
  · subst here
    have later : 1 ≤ index := by simpa using behind
    rw [contents_store_sized (by simp), Array.getElem?_setIfInBounds_ne (by omega)]
  · rw [contents_store_other _ here]

theorem run_reduce_guards (width : Reduction.validWidth sweep.geometry.threadsPerBlock = true)
    (single : 0 < (device.contents sweep.residual).size) :
    Guards (sweep.partials = sweep.residual) [(sweep.residual, 1)] (runReduce sweep) device := by
  by_cases overlap : sweep.partials = sweep.residual
  · exact .of_refused overlap (run_reduce_overlapping overlap.symm) rfl
  · exact .of_done overlap (run_reduce_ok (Ne.symm overlap) width single)
      (changes_only_store_first _)

end Guards

end Relaxation.Device

import Relaxation.Proofs.Iteration

/-!
What a solve sets up before its loop: a scratch for the previous iterate, a copy of the
start vector in it, and fresh buffers for the partial sums. Nothing that was on the
device before changes but the scratch on loan.
-/

namespace Relaxation

variable {α μ : Type}

namespace Device

structure Extends (before after : Device α) : Prop where
  width : after.width = before.width
  grown : before.buffers.size ≤ after.buffers.size
  contents : ∀ buffer, before.Holds buffer → after.contents buffer = before.contents buffer

theorem Extends.refl (device : Device α) : Extends device device :=
  ⟨rfl, Nat.le_refl _, fun _ _ => rfl⟩

theorem Extends.holds {before after : Device α} (more : Extends before after) {buffer : Buffer}
    (held : before.Holds buffer) : after.Holds buffer :=
  Nat.lt_of_lt_of_le held more.grown

theorem Extends.trans {first second third : Device α} (early : Extends first second)
    (late : Extends second third) : Extends first third where
  width := late.width.trans early.width
  grown := Nat.le_trans early.grown late.grown
  contents buffer held :=
    (late.contents buffer (early.holds held)).trans (early.contents buffer held)

theorem Extends.of_alike {before after : Device α} (alike : after.Alike before) :
    Extends before after where
  width := alike.width
  grown := by rw [alike.buffers]
  contents buffer _ := alike.contents buffer

def nextHandle (device : Device α) : Buffer :=
  ⟨device.buffers.size⟩

theorem ne_next_handle {device : Device α} {buffer : Buffer} (held : device.Holds buffer) :
    buffer ≠ device.nextHandle := by
  intro same
  subst same
  exact Nat.lt_irrefl _ held

/-- A buffer made of given values. Without any it holds something else. -/
structure Stores (device : Device α) (buffer : Buffer) (values : Array α) : Prop where
  held : device.Holds buffer
  contents : values ≠ #[] → device.contents buffer = values

theorem Stores.of_extends {before after : Device α} {buffer : Buffer} {values : Array α}
    (stores : Stores before buffer values) (more : Extends before after) :
    Stores after buffer values where
  held := more.holds stores.held
  contents some := (more.contents buffer stores.held).trans (stores.contents some)

theorem Stores.long {device : Device α} {buffer : Buffer} {values : Array α}
    (stores : Stores device buffer values) : values.size ≤ (device.contents buffer).size := by
  by_cases empty : values = #[]
  · rw [empty]
    exact Nat.zero_le _
  · rw [stores.contents empty]

theorem adopt_run (values : Array α) (device : Device α) :
    ∃ after, (adopt values : DeviceM α Buffer) device = (.ok device.nextHandle, after) ∧
      Extends device after ∧ after.Holds device.nextHandle ∧
      after.contents device.nextHandle = values := by
  refine ⟨{ device with buffers := device.buffers.push values }, rfl, ⟨rfl, ?_, ?_⟩, ?_, ?_⟩
  · simp
  · intro buffer held
    have before : buffer.index < device.buffers.size := held
    simp [contents, Array.getD_eq_getD_getElem?, Array.getElem?_push, Nat.ne_of_lt before]
  · simp [Holds, nextHandle]
  · simp [contents, nextHandle, Array.getD_eq_getD_getElem?]

variable [Arithmetic α]

theorem alloc_run (length : Nat) (device : Device α) :
    ∃ after, (alloc length : DeviceM α Buffer) device = (.ok device.nextHandle, after) ∧
      Extends device after ∧ after.Holds device.nextHandle ∧
      after.contents device.nextHandle = Array.replicate (max length 1) 0 :=
  adopt_run _ device

theorem upload_run (values : Array α) (device : Device α) :
    ∃ after, (upload values : DeviceM α Buffer) device = (.ok device.nextHandle, after) ∧
      Extends device after ∧ Stores after device.nextHandle values := by
  unfold upload
  by_cases empty : values.isEmpty = true
  · obtain ⟨after, ran, grown, held, _⟩ := alloc_run 0 device
    rw [if_pos empty]
    exact ⟨after, ran, grown, held, fun some => absurd (Array.isEmpty_iff.mp empty) some⟩
  · obtain ⟨after, ran, grown, held, contents⟩ := adopt_run values device
    rw [if_neg empty]
    exact ⟨after, ran, grown, held, fun _ => contents⟩

omit [Arithmetic α] in
theorem copy_run {device : Device α} {source target : Buffer} {length : Nat}
    (different : source ≠ target) (sourceLong : length ≤ (device.contents source).size)
    (targetLong : length ≤ (device.contents target).size) :
    (copy source target length : DeviceM α Unit) device =
      (.ok (), device.store target (Storage.overwrite (device.contents target) 0
        ((device.contents source).extract 0 length).toList)) := by
  have fits : ¬((device.contents source).size < length ∨ (device.contents target).size < length) :=
    not_or.mpr ⟨Nat.not_lt.mpr sourceLong, Nat.not_lt.mpr targetLong⟩
  unfold copy
  rw [if_neg different, get_bind, get_bind, if_neg fits]
  rfl

omit [Arithmetic α] in
theorem download_run {device : Device α} {buffer : Buffer} {length : Nat}
    (long : length ≤ (device.contents buffer).size) :
    ∃ after, after.Alike device ∧ (download buffer length : DeviceM α (Array α)) device =
      (.ok ((device.contents buffer).extract 0 length), after) := by
  generalize read : device.count
    (fun counters => { counters with readbacks := counters.readbacks + 1 }) = after
  have alike : after.Alike device := by
    subst read
    exact ⟨rfl, rfl⟩
  have enough : ¬(after.contents buffer).size < length := by
    rw [alike.contents]
    exact Nat.not_lt.mpr long
  refine ⟨after, alike, ?_⟩
  unfold download countReadback
  rw [modify_bind, get_bind, read, if_neg enough, ← alike.contents]
  rfl

end Device

namespace Solver

variable [Arithmetic α] {solver : Solver α} {matrix : Matrix α} {request : Request α}

/-- A matrix that a solver was set up for, with the solver's own buffers in place. -/
structure Installed (solver : Solver α) (matrix : Matrix α) (device : Device α) : Prop where
  sound : matrix.Sound
  rows : matrix.rows = solver.rows
  blockSize : matrix.blockSize = solver.kernel.blockSize
  small : solver.kernel.blockSize ≤ maxBlockSize
  diagonalHeld : device.Holds solver.diagonal
  inverseHeld : device.Holds solver.inverse
  diagonalLong : solver.rows * solver.kernel.blockSize * solver.kernel.blockSize ≤
    (device.contents solver.diagonal).size
  inverseLong : solver.kernel.inverseLength solver.rows ≤ (device.contents solver.inverse).size

structure Furnished (solver : Solver α) (device : Device α) : Prop where
  positive : 0 < solver.kernel.blockSize
  small : solver.kernel.blockSize ≤ maxBlockSize
  diagonalHeld : device.Holds solver.diagonal
  inverseHeld : device.Holds solver.inverse
  diagonalLong : solver.rows * solver.kernel.blockSize * solver.kernel.blockSize ≤
    (device.contents solver.diagonal).size
  inverseLong : solver.kernel.inverseLength solver.rows ≤ (device.contents solver.inverse).size

omit [Arithmetic α] in
theorem Installed.furnished {device : Device α} (installed : Installed solver matrix device) :
    Furnished solver device :=
  ⟨installed.blockSize ▸ installed.sound.positive, installed.small, installed.diagonalHeld,
    installed.inverseHeld, installed.diagonalLong, installed.inverseLong⟩

omit [Arithmetic α] in
theorem Furnished.installed {device : Device α} (furnished : Furnished solver device)
    (sound : matrix.Sound) (rows : matrix.rows = solver.rows)
    (blockSize : matrix.blockSize = solver.kernel.blockSize) : Installed solver matrix device :=
  ⟨sound, rows, blockSize, furnished.small, furnished.diagonalHeld, furnished.inverseHeld,
    furnished.diagonalLong, furnished.inverseLong⟩

omit [Arithmetic α] in
theorem Furnished.of_extends {before after : Device α} (furnished : Furnished solver before)
    (grown : Device.Extends before after) : Furnished solver after where
  positive := furnished.positive
  small := furnished.small
  diagonalHeld := grown.holds furnished.diagonalHeld
  inverseHeld := grown.holds furnished.inverseHeld
  diagonalLong := grown.contents _ furnished.diagonalHeld ▸ furnished.diagonalLong
  inverseLong := grown.contents _ furnished.inverseHeld ▸ furnished.inverseLong

/-- Buffers of a request that the checks of a solve let through, none of them the
solver's own. -/
structure Lent (solver : Solver α) (request : Request α) (device : Device α) : Prop where
  rhsHeld : device.Holds request.rhs
  iterateHeld : device.Holds request.iterate
  rhsLong : solver.owned ≤ (device.contents request.rhs).size
  iterateLong : solver.owned ≤ (device.contents request.iterate).size
  iterateApart : request.iterate ∉ [solver.diagonal, solver.inverse, request.rhs]
  auxiliary : ∀ buffer ∈ request.auxiliary, device.Holds buffer ∧
    buffer ∉ [request.iterate, solver.diagonal, solver.inverse, request.rhs]

omit [Arithmetic α] in
theorem Installed.of_extends {before after : Device α} (installed : Installed solver matrix before)
    (grown : Device.Extends before after) : Installed solver matrix after where
  sound := installed.sound
  rows := installed.rows
  blockSize := installed.blockSize
  small := installed.small
  diagonalHeld := grown.holds installed.diagonalHeld
  inverseHeld := grown.holds installed.inverseHeld
  diagonalLong := grown.contents _ installed.diagonalHeld ▸ installed.diagonalLong
  inverseLong := grown.contents _ installed.inverseHeld ▸ installed.inverseLong

omit [Arithmetic α] in
theorem Lent.of_extends {before after : Device α} (lent : Lent solver request before)
    (grown : Device.Extends before after) : Lent solver request after where
  rhsHeld := grown.holds lent.rhsHeld
  iterateHeld := grown.holds lent.iterateHeld
  rhsLong := grown.contents _ lent.rhsHeld ▸ lent.rhsLong
  iterateLong := grown.contents _ lent.iterateHeld ▸ lent.iterateLong
  iterateApart := lent.iterateApart
  auxiliary buffer member :=
    ⟨grown.holds (lent.auxiliary buffer member).1, (lent.auxiliary buffer member).2⟩

omit [Arithmetic α] in
theorem Installed.with_launch {device : Device α} (installed : Installed solver matrix device)
    (mode : LaunchMode) : Installed (solver.withLaunch mode) matrix device :=
  ⟨installed.sound, installed.rows, installed.blockSize, installed.small, installed.diagonalHeld,
    installed.inverseHeld, installed.diagonalLong, installed.inverseLong⟩

omit [Arithmetic α] in
theorem Lent.with_launch {device : Device α} (lent : Lent solver request device)
    (mode : LaunchMode) : Lent (solver.withLaunch mode) request device :=
  ⟨lent.rhsHeld, lent.iterateHeld, lent.rhsLong, lent.iterateLong, lent.iterateApart,
    lent.auxiliary⟩

omit [Arithmetic α] in
theorem Installed.with_communicator {device : Device α} (installed : Installed solver matrix device)
    (communicator : Communicator) : Installed (solver.withCommunicator communicator) matrix device :=
  ⟨installed.sound, installed.rows, installed.blockSize, installed.small, installed.diagonalHeld,
    installed.inverseHeld, installed.diagonalLong, installed.inverseLong⟩

omit [Arithmetic α] in
theorem Lent.with_communicator {device : Device α} (lent : Lent solver request device)
    (communicator : Communicator) : Lent (solver.withCommunicator communicator) request device :=
  ⟨lent.rhsHeld, lent.iterateHeld, lent.rhsLong, lent.iterateLong, lent.iterateApart,
    lent.auxiliary⟩

def scratchValues (auxiliary : Option Buffer) (needed : Nat) (device : Device α) : Array α :=
  match auxiliary with
  | none => Array.replicate (max needed 1) 0
  | some buffer =>
    if needed ≤ (device.contents buffer).size then device.contents buffer
    else Array.replicate (max needed 1) 0

theorem le_size_scratch_values (auxiliary : Option Buffer) (needed : Nat) (device : Device α) :
    needed ≤ (scratchValues auxiliary needed device).size := by
  have zeros : needed ≤ (Array.replicate (max needed 1) (0 : α)).size := by
    rw [Array.size_replicate]
    exact le_max_left _ _
  unfold scratchValues
  split
  · exact zeros
  · split
    · assumption
    · exact zeros

inductive Supplied (auxiliary : Option Buffer) (needed : Nat) (before : Device α) :
    Buffer → ScratchOrigin → Prop where
  | borrowed {buffer : Buffer} (given : auxiliary = some buffer)
      (long : needed ≤ (before.contents buffer).size) : Supplied auxiliary needed before buffer .borrowed
  | allocated (short : ∀ given ∈ auxiliary, (before.contents given).size < needed) :
      Supplied auxiliary needed before before.nextHandle .allocated

omit [Arithmetic α] in
theorem Supplied.apart {auxiliary : Option Buffer} {needed : Nat} {before : Device α}
    {buffer other : Buffer} {origin : ScratchOrigin}
    (comes : Supplied auxiliary needed before buffer origin) (held : before.Holds other)
    (spared : other ∈ auxiliary → (before.contents other).size < needed) : other ≠ buffer := by
  rintro rfl
  cases comes with
  | borrowed given long => exact Nat.not_lt.mpr long (spared given)
  | allocated => exact Device.ne_next_handle held rfl

theorem scratch_run (auxiliary : Option Buffer) (needed : Nat) (scope : SolveScope α μ)
    (held : ∀ buffer ∈ auxiliary, scope.device.Holds buffer) :
    ∃ buffer origin after, (scratch auxiliary needed : SolveM α μ (Buffer × ScratchOrigin)) scope =
        .done (.ok (buffer, origin), { scope with device := after }) ∧
      Device.Extends scope.device after ∧ after.Holds buffer ∧
      after.contents buffer = scratchValues auxiliary needed scope.device ∧
      Supplied auxiliary needed scope.device buffer origin := by
  have allocated : ∀ first : SolveScope α μ, ∃ after,
      (do pure (← SolveM.call (Device.alloc needed), ScratchOrigin.allocated) :
        SolveM α μ (Buffer × ScratchOrigin)) first =
        .done (.ok (first.device.nextHandle, .allocated), { first with device := after }) ∧
      Device.Extends first.device after ∧ after.Holds first.device.nextHandle ∧
      after.contents first.device.nextHandle = Array.replicate (max needed 1) 0 := by
    intro first
    obtain ⟨after, ran, grown, holds, contents⟩ := Device.alloc_run needed first.device
    refine ⟨after, ?_, grown, holds, contents⟩
    rw [meet_of_done (SolveM.call_run ran)]
    rfl
  cases auxiliary with
  | none =>
      obtain ⟨after, ran, grown, holds, zeros⟩ := allocated scope
      exact ⟨_, _, after, ran, grown, holds, zeros, .allocated fun _ given => nomatch given⟩
  | some given =>
      have asked : (scratch (some given) needed : SolveM α μ (Buffer × ScratchOrigin)) scope =
          (if needed ≤ (scope.device.contents given).size then pure (given, ScratchOrigin.borrowed)
          else do
            SolveM.report (.scratchTooSmall (scope.device.contents given).size needed)
            pure (← SolveM.call (Device.alloc needed), ScratchOrigin.allocated)) scope := rfl
      rw [asked]
      unfold scratchValues
      by_cases enough : needed ≤ (scope.device.contents given).size
      · simp only [if_pos enough]
        exact ⟨given, .borrowed, scope.device, rfl, .refl _, held given rfl, rfl,
          .borrowed rfl enough⟩
      · obtain ⟨after, ran, grown, holds, zeros⟩ := allocated { scope with
          device := scope.device.report
            (.scratchTooSmall (scope.device.contents given).size needed) }
        simp only [if_neg enough]
        refine ⟨_, _, after, ran, ⟨grown.width, grown.grown, grown.contents⟩, holds, zeros,
          .allocated fun other same => ?_⟩
        cases same
        exact Nat.lt_of_not_le enough

/-- Where a solve stands when its loop begins: the iterate is the start vector, the
previous one a copy of it, and the read buffers are as they were. -/
structure Begun (solver : Solver α) (matrix : Matrix α) (request : Request α)
    (before : Device α) (sweep : Sweep) (after : Device α) : Prop where
  fitting : Fitting matrix sweep after
  kernel : sweep.kernel = solver.kernel
  rows : sweep.rows = solver.rows
  handle : sweep.iterate = request.iterate
  sources : after.sources sweep = ⟨before.contents solver.diagonal,
    before.contents solver.inverse, before.contents request.rhs⟩
  iterate : after.contents sweep.iterate = before.contents request.iterate
  previous : ∀ index, index < solver.owned →
    (after.contents sweep.previous)[index]? = (before.contents request.iterate)[index]?
  ghosts : ∀ index, solver.owned ≤ index → (after.contents sweep.previous)[index]? =
    (scratchValues request.auxiliary (matrix.columns * solver.kernel.blockSize) before)[index]?
  width : after.width = before.width
  held : ∀ buffer, before.Holds buffer → after.Holds buffer

def sweepOn (solver : Solver α) (request : Request α) (geometry : Geometry)
    (previous partials residual : Buffer) : Sweep :=
  { kernel := solver.kernel
    rows := solver.rows
    geometry := geometry
    diagonal := solver.diagonal
    inverse := solver.inverse
    rhs := request.rhs
    iterate := request.iterate
    previous := previous
    partials := partials
    residual := residual }

theorem prepare_sweep_run (solver : Solver α) (request : Request α) (previous : Buffer)
    (scope : SolveScope α μ) :
    ∃ partials residual after,
      (solver.prepareSweep request previous : SolveM α μ Sweep) scope =
        .done (.ok (solver.sweepOn request (scope.device.geometry solver.rows) previous partials
          residual), { scope with device := after }) ∧
      Device.Extends scope.device after ∧
      (scope.device.geometry solver.rows).blocks ≤ (after.contents partials).size ∧
      0 < (after.contents residual).size ∧ residual ≠ partials ∧
      ∀ other, scope.device.Holds other → other ≠ partials ∧ other ≠ residual := by
  obtain ⟨middle, ran, grown, holds, contents⟩ :=
    Device.alloc_run (scope.device.geometry solver.rows).blocks scope.device
  obtain ⟨last, ran', grown', holds', contents'⟩ := Device.alloc_run 1 middle
  refine ⟨scope.device.nextHandle, middle.nextHandle, last, ?_, grown.trans grown', ?_, ?_, ?_,
    fun other held => ?_⟩
  · have first : (SolveM.call (Device.alloc (scope.device.geometry solver.rows).blocks) :
        SolveM α μ Buffer) scope = .done (.ok scope.device.nextHandle, { scope with device := middle }) :=
      SolveM.call_run ran
    have second : (SolveM.call (Device.alloc 1) : SolveM α μ Buffer) { scope with device := middle } =
        .done (.ok middle.nextHandle, { scope with device := last }) :=
      SolveM.call_run ran'
    have asked : (get : SolveM α μ (SolveScope α μ)) scope = .done (.ok scope, scope) := rfl
    unfold prepareSweep
    rw [meet_of_done asked, meet_of_done first, meet_of_done second]
    rfl
  · rw [grown'.contents _ holds, contents, Array.size_replicate]
    exact le_max_left _ _
  · rw [contents', Array.size_replicate]
    exact Nat.one_pos
  · exact (Device.ne_next_handle holds).symm
  · exact ⟨Device.ne_next_handle held, Device.ne_next_handle (grown.holds held)⟩

structure Scratched (solver : Solver α) (matrix : Matrix α) (request : Request α)
    (before : Device α) (previous : Buffer) (after : Device α) : Prop where
  grown : Device.Extends before after
  held : after.Holds previous
  initial : after.contents previous =
    scratchValues request.auxiliary (matrix.columns * solver.kernel.blockSize) before
  apart : previous ∉ [request.iterate, solver.diagonal, solver.inverse, request.rhs]

theorem Scratched.long {before after : Device α} {previous : Buffer}
    (scratched : Scratched solver matrix request before previous after) :
    matrix.columns * solver.kernel.blockSize ≤ (after.contents previous).size := by
  rw [scratched.initial]
  exact le_size_scratch_values ..

theorem scratched_run (matrix : Matrix α) (scope : SolveScope α μ)
    (furnished : Furnished solver scope.device) (lent : Lent solver request scope.device) :
    ∃ previous origin first, (scratch request.auxiliary (matrix.columns * solver.kernel.blockSize) :
        SolveM α μ (Buffer × ScratchOrigin)) scope =
          .done (.ok (previous, origin), { scope with device := first }) ∧
      Scratched solver matrix request scope.device previous first ∧
      Supplied request.auxiliary (matrix.columns * solver.kernel.blockSize) scope.device
        previous origin := by
  obtain ⟨previous, origin, first, ran, grown, held, initial, comes⟩ :=
    scratch_run request.auxiliary (matrix.columns * solver.kernel.blockSize) scope
      fun buffer member => (lent.auxiliary buffer member).1
  refine ⟨previous, origin, first, ran, ⟨grown, held, initial, fun listed => ?_⟩, comes⟩
  -- a new buffer is none of these, and neither is one that the checks have let through
  have apart : ∀ buffer ∈ [request.iterate, solver.diagonal, solver.inverse, request.rhs],
      scope.device.Holds buffer → buffer ≠ previous := fun buffer named held =>
    comes.apart held fun given => absurd named (lent.auxiliary buffer given).2
  simp only [List.mem_cons, List.not_mem_nil, or_false] at listed
  rcases listed with same | same | same | same
  · exact apart request.iterate (by simp) lent.iterateHeld same.symm
  · exact apart solver.diagonal (by simp) furnished.diagonalHeld same.symm
  · exact apart solver.inverse (by simp) furnished.inverseHeld same.symm
  · exact apart request.rhs (by simp) lent.rhsHeld same.symm

structure Copied (solver : Solver α) (matrix : Matrix α) (request : Request α) (before : Device α)
    (previous : Buffer) (after : Device α) : Prop where
  width : after.width = before.width
  held : after.Holds previous
  kept : ∀ other, before.Holds other → after.Holds other
  long : matrix.columns * solver.kernel.blockSize ≤ (after.contents previous).size
  room : solver.owned ≤ (after.contents previous).size
  apart : previous ∉ [request.iterate, solver.diagonal, solver.inverse, request.rhs]
  elsewhere : ∀ other, before.Holds other → other ≠ previous →
    after.contents other = before.contents other
  values : ∀ index, index < solver.owned →
    (after.contents previous)[index]? = (before.contents request.iterate)[index]?
  ghosts : ∀ index, solver.owned ≤ index → (after.contents previous)[index]? =
    (scratchValues request.auxiliary (matrix.columns * solver.kernel.blockSize) before)[index]?

theorem Scratched.copied {before first : Device α} {previous : Buffer}
    (scratched : Scratched solver matrix request before previous first)
    (lent : Lent solver request before) (room : solver.owned ≤ (first.contents previous).size) :
    ∃ second, (Device.copy request.iterate previous solver.owned : DeviceM α Unit) first =
      (.ok (), second) ∧ Copied solver matrix request before previous second := by
  have grown := scratched.grown
  have different : request.iterate ≠ previous := fun same =>
    scratched.apart (same ▸ List.mem_cons_self)
  have iterateLong : solver.owned ≤ (first.contents request.iterate).size := by
    rw [grown.contents _ lent.iterateHeld]
    exact lent.iterateLong
  have copied := Device.copy_run different iterateLong room
  have length : ((first.contents request.iterate).extract 0 solver.owned).toList.length =
      solver.owned := by
    simpa using iterateLong
  refine ⟨_, copied, grown.width, ?_, fun other held => ?_, ?_, ?_, scratched.apart,
    fun other held different => ?_, fun index inside => ?_, fun index behind => ?_⟩
  · simpa [Device.Holds, Device.store] using scratched.held
  · simpa [Device.Holds, Device.store] using grown.holds held
  · rw [Device.contents_store_same scratched.held, Storage.size_overwrite]
    exact scratched.long
  · rw [Device.contents_store_same scratched.held, Storage.size_overwrite]
    exact room
  · rw [Device.contents_store_other _ (Ne.symm different), grown.contents _ held]
  · have inside' : index < (first.contents previous).size := by omega
    have listed : index < (first.contents request.iterate).size := by omega
    rw [Device.contents_store_same scratched.held, Storage.getElem?_overwrite, length,
      if_pos (by omega), Nat.sub_zero, Array.getElem?_toList, Array.getElem?_extract, Nat.zero_add,
      if_pos (by omega), grown.contents _ lent.iterateHeld]
  · rw [Device.contents_store_same scratched.held,
      Storage.getElem?_overwrite_outside _ _ _ (.inr (by omega)), scratched.initial]

/-- The buffers of a sweep are apart and long enough, whatever the matrix's entries are. -/
structure Provided (matrix : Matrix α) (sweep : Sweep) (device : Device α) : Prop where
  rows : matrix.rows = sweep.rows
  blockSize : matrix.blockSize = sweep.kernel.blockSize
  separate : Device.Separate sweep
  ready : Device.Ready sweep device
  extended : matrix.columns * matrix.blockSize ≤ (device.contents sweep.previous).size

omit [Arithmetic α] in
theorem Provided.fitting {sweep : Sweep} {device : Device α}
    (provided : Provided matrix sweep device) (sound : matrix.Sound) :
    Fitting matrix sweep device :=
  ⟨sound, provided.rows, provided.blockSize, provided.separate, provided.ready, provided.extended⟩

theorem Copied.prepares {before : Device α} {previous : Buffer} (scope : SolveScope α μ)
    (copied : Copied solver matrix request before previous scope.device)
    (furnished : Furnished solver before) (lent : Lent solver request before)
    (rows : matrix.rows = solver.rows) (blockSize : matrix.blockSize = solver.kernel.blockSize) :
    ∃ sweep after, (solver.prepareSweep request previous : SolveM α μ Sweep) scope =
        .done (.ok sweep, { scope with device := after }) ∧
      sweep.previous = previous ∧ Provided matrix sweep after ∧
      (matrix.Sound → Begun solver matrix request before sweep after) := by
  obtain ⟨partials, residual, after, prepared, grown, partialsLong, residualLong, different, other⟩ :=
    prepare_sweep_run solver request previous scope
  have apart := copied.apart
  simp only [List.mem_cons, List.not_mem_nil, or_false, not_or] at apart
  have named : ∀ buffer, before.Holds buffer → buffer ≠ previous →
      after.contents buffer = before.contents buffer ∧
        buffer ≠ partials ∧ buffer ≠ residual := by
    intro buffer held elsewhere
    refine ⟨?_, other buffer (copied.kept _ held)⟩
    rw [grown.contents _ (copied.kept _ held), copied.elsewhere _ held elsewhere]
  obtain ⟨iterateSame, iteratePartials, iterateResidual⟩ :=
    named request.iterate lent.iterateHeld (Ne.symm apart.1)
  obtain ⟨diagonalSame, diagonalPartials, diagonalResidual⟩ :=
    named solver.diagonal furnished.diagonalHeld (Ne.symm apart.2.1)
  obtain ⟨inverseSame, inversePartials, inverseResidual⟩ :=
    named solver.inverse furnished.inverseHeld (Ne.symm apart.2.2.1)
  obtain ⟨rhsSame, rhsPartials, rhsResidual⟩ :=
    named request.rhs lent.rhsHeld (Ne.symm apart.2.2.2)
  have previousSame := grown.contents _ copied.held
  obtain ⟨previousPartials, previousResidual⟩ := other previous copied.held
  have sources : after.sources (solver.sweepOn request (scope.device.geometry solver.rows) previous
      partials residual) = ⟨before.contents solver.diagonal,
        before.contents solver.inverse, before.contents request.rhs⟩ := by
    simp only [Device.sources, sweepOn, diagonalSame, inverseSame, rhsSame]
  have provided : Provided matrix (solver.sweepOn request (scope.device.geometry solver.rows)
      previous partials residual) after := by
    refine ⟨rows, blockSize, ⟨⟨?_, ?_, ?_⟩, ?_⟩,
      ⟨furnished.positive, furnished.small, ?_, ?_, residualLong⟩, ?_⟩
    -- every buffer that is written is apart from those before it
    · simpa [sweepOn] using lent.iterateApart
    · simp [sweepOn, apart]
    · simp [sweepOn, iteratePartials.symm, diagonalPartials.symm, inversePartials.symm,
        rhsPartials.symm, previousPartials.symm]
    · simp [sweepOn, different, iterateResidual.symm, diagonalResidual.symm, inverseResidual.symm,
        rhsResidual.symm, previousResidual.symm]
    · change scope.device.geometry solver.rows = after.geometry solver.rows
      rw [Device.geometry, Device.geometry, grown.width]
    · have values : solver.rows * solver.kernel.blockSize ≤ (after.contents previous).size := by
        rw [previousSame]
        exact copied.room
      refine Device.long_enough_of_covered ⟨furnished.small, ?_, ?_, ?_⟩ ?_ values partialsLong
      · rw [sources]
        exact furnished.diagonalLong
      · rw [sources]
        exact furnished.inverseLong
      · rw [sources]
        exact lent.rhsLong
      · exact iterateSame ▸ lent.iterateLong
    · change matrix.columns * matrix.blockSize ≤ (after.contents previous).size
      rw [previousSame, blockSize]
      exact copied.long
  refine ⟨_, after, prepared, rfl, provided, fun sound => ⟨provided.fitting sound, rfl, rfl, rfl, sources,
    iterateSame, fun index inside => ?_, fun index behind => ?_, grown.width.trans copied.width,
    fun buffer held => grown.holds (copied.kept buffer held)⟩⟩
  · change (after.contents previous)[index]? = _
    rw [previousSame]
    exact copied.values index inside
  · change (after.contents previous)[index]? = _
    rw [previousSame]
    exact copied.ghosts index behind

theorem relax_run [SquareRoot α] (policy : Policy α μ) (scope : SolveScope α μ)
    (installed : Installed solver matrix scope.device) (lent : Lent solver request scope.device) :
    ∃ sweep origin after, solver.relax matrix request policy scope =
        solver.iterate matrix policy sweep origin iterationLimit (.ofMode solver.config.launch)
          (.start solver.name solver.config.verbosity solver.config.maxIterations
            solver.config.precision request.norm) #[] { scope with device := after } ∧
      Begun solver matrix request scope.device sweep after := by
  have furnished := installed.furnished
  obtain ⟨previous, origin, first, ran, scratched, _⟩ := scratched_run matrix scope furnished lent
  have covers : solver.owned ≤ matrix.columns * solver.kernel.blockSize := by
    rw [owned, ← installed.rows]
    exact Nat.mul_le_mul_right _ installed.sound.covers
  obtain ⟨second, moved, copied⟩ := scratched.copied lent (covers.trans scratched.long)
  obtain ⟨sweep, after, prepared, _, _, begun⟩ := Copied.prepares { scope with device := second } copied
    furnished lent installed.rows installed.blockSize
  refine ⟨sweep, origin, after, ?_, begun installed.sound⟩
  unfold relax
  rw [meet_of_done ran]
  dsimp only
  rw [meet_of_done (SolveM.call_run moved), meet_of_done prepared]

end Solver
end Relaxation

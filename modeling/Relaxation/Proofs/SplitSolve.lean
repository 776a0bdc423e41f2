import Relaxation.Proofs.HaloFrame
import Relaxation.Proofs.Refusal
import Relaxation.Proofs.ResidualLoop

/-!
A solve in two parts. The owned values of its iterate are all that a solve has to leave for a
second one to go on as if the first had never stopped: the ghost values of the scratch begin
as zeros in both, and neither reads anything else that the other has written.
-/

namespace Relaxation

variable {α β γ μ : Type}

open Collective

namespace Collective

theorem Related.symm {R : β → γ → Prop} {left : Collective α β} {right : Collective α γ}
    (related : Related R left right) : Related (fun b a => R a b) right left := by
  induction related with
  | done holds => exact .done holds
  | sum _ ih => exact .sum ih
  | exchange _ ih => exact .exchange ih

theorem Related.sums {R : β → γ → Prop} {left : Collective α β} {right : Collective α γ}
    {calls : List (α × α)} {result : β} (related : Related R left right)
    (sums : left.Sums calls result) : ∃ other, right.Sums calls other ∧ R result other := by
  induction related generalizing calls with
  | done holds =>
      obtain ⟨rfl, rfl⟩ := sums_done_iff.mp sums
      exact ⟨_, .done _, holds⟩
  | sum _ ih =>
      obtain _ | ⟨total, rest⟩ := sums
      obtain ⟨other, sums', holds⟩ := ih total rest
      exact ⟨other, .sum total sums', holds⟩
  | exchange _ _ => cases sums

end Collective

variable [Arithmetic α]

namespace Matrix

/-- A matrix assembled from its entries. If it has a halo, that meets no other rank. -/
inductive AtHome : Matrix α → Prop where
  | whole {rows columns blockSize : Nat} {diagonal : Array α} {entries : List (Entry α)}
      {matrix : Matrix α} (assembled : assemble rows columns blockSize diagonal entries = .ok matrix) :
      AtHome matrix
  | haloed {rows columns blockSize : Nat} {diagonal : Array α} {entries : List (Entry α)}
      {matrix haloed : Matrix α} {halo : Halo}
      (assembled : assemble rows columns blockSize diagonal entries = .ok matrix)
      (alone : halo.communicator = .alone) (same : halo.blockSize = matrix.blockSize)
      (attached : matrix.withHalo halo = .ok haloed) : AtHome haloed

theorem AtHome.sound {matrix : Matrix α} (home : matrix.AtHome) : matrix.Sound := by
  cases home with
  | whole assembled => exact sound_of_assemble assembled
  | haloed assembled _ _ attached =>
      rw [(with_halo_ok attached).1]
      exact (sound_of_assemble assembled).with_halo _

theorem AtHome.lone {matrix : Matrix α} (home : matrix.AtHome) : matrix.Lone := by
  cases home with
  | whole assembled =>
      obtain ⟨_, _, _, _, rfl⟩ := assemble_ok assembled
      exact fun _ present => nomatch present
  | haloed assembled alone same attached =>
      rw [(with_halo_ok attached).1]
      rintro _ ⟨⟩
      exact ⟨alone, same⟩

end Matrix

namespace Solver

variable {solver : Solver α} {matrix : Matrix α} {request : Request α} {sweep : Sweep}
  {before after : Device α}

def share (solver : Solver α) (matrix : Matrix α) (request : Request α) (device : Device α) :
    Share α where
  matrix := matrix
  kernel := solver.kernel
  geometry := device.geometry matrix.rows
  sources := ⟨device.contents solver.diagonal, device.contents solver.inverse,
    device.contents request.rhs⟩
  communicator := solver.communicator

def startValues (solver : Solver α) (request : Request α) (device : Device α) : Array α :=
  (device.contents request.iterate).extract 0 solver.owned

theorem Begun.resting (begun : Begun solver matrix request before sweep after)
    (unaided : request.auxiliary = none) :
    Resting (solver.share matrix request before) sweep after (solver.startValues request before)
      after := by
  have owned := begun.owned
  have long : solver.owned ≤ (before.contents request.iterate).size := by
    rw [owned, ← begun.iterate]
    exact begun.fitting.iterate_long
  have size : (solver.startValues request before).size = matrix.rows * matrix.blockSize := by
    rw [startValues, Array.size_extract, ← owned]
    omega
  have front : ∀ index, index < matrix.rows * matrix.blockSize →
      (before.contents request.iterate)[index]? = (solver.startValues request before)[index]? := by
    intro index inside
    rw [startValues, Array.getElem?_extract, if_pos (by omega), Nat.zero_add]
  have carries := begun.carries front
  refine ⟨carries, begun.kernel, ?_, size, rfl, ?_, fun index inside => ?_⟩
  · rw [begun.fitting.ready.geometry, ← begun.fitting.rows, Device.geometry, begun.width]
    rfl
  · rw [begun.iterate]
    exact (Storage.overwrite_front _ _).symm
  · by_cases own : index < matrix.rows * matrix.blockSize
    · rw [carries.previous index own]
      exact (Share.padded_owned _ size own).symm
    · -- behind the owned values a new scratch holds zeros
      have zeros := begun.ghosts index (by rw [owned]; exact Nat.not_lt.mp own)
      have room : index < max (matrix.columns * matrix.blockSize) 1 := lt_max_of_lt_left inside
      rw [zeros, unaided, ← begun.kernel, ← begun.fitting.blockSize]
      refine Eq.trans ?_ (Share.padded_ghost _ begun.fitting.sound.covers size own inside).symm
      exact Array.getElem?_replicate.trans (if_pos room)

section Solving

variable [SquareRoot α] {policy : Policy α μ} {scope : SolveScope α μ} {calls : List (α × α)}
  {outcome : Outcome α} {last : SolveScope α μ}

def Ran (solver : Solver α) (matrix : Matrix α) (request : Request α) (policy : Policy α μ)
    (before : SolveScope α μ) (calls : List (α × α)) (outcome : Outcome α)
    (after : SolveScope α μ) : Prop :=
  (solver.solve matrix request policy before).Sums calls (.ok outcome, after)

theorem Ran.of_launch (mode mode' : LaunchMode)
    (ran : (solver.withLaunch mode).Ran matrix request policy scope calls outcome last) :
    ∃ last', (solver.withLaunch mode').Ran matrix request policy scope calls outcome last' ∧
      last'.device.Alike last.device := by
  have agreed := solver.agree_solve matrix request policy scope scope
    ⟨Device.Alike.refl _, rfl, rfl⟩
  cases mode <;> cases mode'
  · exact ⟨last, ran, .refl _⟩
  · obtain ⟨⟨_, last'⟩, sums', ⟨rfl⟩, alike⟩ := agreed.sums ran
    exact ⟨last', sums', alike.device.width.symm, alike.device.buffers.symm⟩
  · obtain ⟨⟨_, last'⟩, sums', same, alike⟩ := agreed.symm.sums ran
    cases same with
    | ok equal =>
        cases equal
        exact ⟨last', sums', alike.device⟩
  · exact ⟨last, ran, .refl _⟩

omit [Arithmetic α] [SquareRoot α] in
theorem share_of_alike (alike : after.Alike before) :
    solver.share matrix request after = solver.share matrix request before := by
  simp only [share, alike.contents, alike.geometry]

omit [Arithmetic α] [SquareRoot α] in
theorem start_values_of_alike (alike : after.Alike before) :
    solver.startValues request after = solver.startValues request before := by
  simp only [startValues, alike.contents]

structure Went (solver : Solver α) (matrix : Matrix α) (request : Request α) (before : Device α)
    (totals : List α) (calls : List (α × α)) (x : Array α) (outcome : Outcome α)
    (after : Device α) : Prop where
  rounds : (solver.share matrix request before).Rounds (solver.startValues request before) totals
    calls x
  size : x.size = solver.owned
  iterations : outcome.iterations = totals.length
  history : outcome.history = (totals.map SquareRoot.root).toArray
  iterate : after.contents request.iterate =
    Storage.overwrite (before.contents request.iterate) 0 x.toList
  elsewhere : ∀ buffer, before.Holds buffer → buffer ≠ request.iterate →
    after.contents buffer = before.contents buffer
  geometry : after.geometry matrix.rows = before.geometry matrix.rows
  held : ∀ buffer, before.Holds buffer → after.Holds buffer

structure Entered (solver : Solver α) (matrix : Matrix α) (request : Request α)
    (before : Device α) (sweep : Sweep) (entry : Device α) : Prop where
  resting : Resting (solver.share matrix request before) sweep entry
    (solver.startValues request before) entry
  handle : sweep.iterate = request.iterate
  start : entry.contents request.iterate = before.contents request.iterate
  held : ∀ buffer, before.Holds buffer → entry.Holds buffer

theorem Entered.went {entry passed after : Device α} {totals : List α} {x : Array α}
    (entered : Entered solver matrix request before sweep entry)
    (through : Passed (solver.share matrix request before) sweep entry (solver.begins request) #[]
      (solver.startValues request before) totals calls x outcome passed)
    (rows : matrix.rows = solver.rows) (blockSize : matrix.blockSize = solver.kernel.blockSize)
    (alike : passed.Alike after) (elsewhere : ∀ buffer, before.Holds buffer →
      buffer ≠ request.iterate → after.contents buffer = before.contents buffer) :
    Went solver matrix request before totals calls x outcome after := by
  have resting := through.resting
  refine ⟨through.rounds, ?_, ?_, ?_, ?_, elsewhere, ?_, fun buffer holds => ?_⟩
  · rw [resting.size, owned, ← rows, ← blockSize]
    rfl
  · rw [through.iterations]
    exact Nat.zero_add _
  · rw [through.history]
    simp
  · rw [← alike.contents, ← entered.handle, resting.iterate, entered.handle, entered.start]
  · have fitting := resting.carries.fitting
    have covered := fitting.ready.geometry
    rw [← fitting.rows, resting.geometry, alike.geometry] at covered
    exact covered.symm
  · have same := Device.holds_of_sizes resting.sizes (entered.held buffer holds)
    unfold Device.Holds at same ⊢
    rwa [← alike.buffers]

/-- A solve that has no buffer on loan and goes into its loop, where it meets other ranks for
its sums only. -/
structure Repeatable (solver : Solver α) (matrix : Matrix α) (request : Request α)
    (device : Device α) : Prop where
  lone : matrix.Lone
  installed : Installed solver matrix device
  lent : Lent solver request device
  unaided : request.auxiliary = none
  positive : Arithmetic.le request.norm zeroNorm = false

theorem Repeatable.enters (repeatable : Repeatable solver matrix request scope.device)
    (policy : Policy α μ) :
    ∃ sweep origin entry, (solver.withLaunch .direct).solve matrix request policy scope =
        (solver.withLaunch .direct).iterate matrix policy sweep origin iterationLimit .direct
          (solver.begins request) #[] { scope with device := entry } ∧
      Entered solver matrix request scope.device sweep entry := by
  have installed := repeatable.installed.with_launch .direct
  have lent := repeatable.lent.with_launch .direct
  obtain ⟨device, alike, passed⟩ := solve_run policy scope installed lent repeatable.positive
  obtain ⟨sweep, origin, entry, entered, begun⟩ := relax_run policy { scope with device := device }
    (installed.of_extends (.of_alike alike)) (lent.of_extends (.of_alike alike))
  have resting := begun.resting repeatable.unaided
  rw [share_of_alike alike, start_values_of_alike alike] at resting
  have start := begun.iterate
  rw [begun.handle, alike.contents] at start
  exact ⟨sweep, origin, entry, passed.trans entered, resting, begun.handle, start,
    fun buffer held => begun.held buffer ((Device.Extends.of_alike alike).holds held)⟩

theorem Ran.leaves (ran : solver.Ran matrix request policy scope calls outcome last)
    (unaided : request.auxiliary = none) (buffer : Buffer) (held : scope.device.Holds buffer)
    (apart : buffer ≠ request.iterate) :
    last.device.contents buffer = scope.device.contents buffer :=
  solve_leaves apart (fun given => nomatch unaided ▸ given) (fun _ given => nomatch unaided ▸ given)
    held ran.ends

theorem Ran.went (ran : solver.Ran matrix request policy scope calls outcome last)
    (repeatable : Repeatable solver matrix request scope.device) :
    ∃ totals x, Went solver matrix request scope.device totals calls x outcome last.device ∧
      StopsOn policy (solver.begins request) scope.memory (totals.map SquareRoot.root) ∧
      totals.length ≤ iterationLimit := by
  -- with direct launches the solve makes the same calls, and is its loop
  obtain ⟨last', sums, alike⟩ := Ran.of_launch solver.config.launch .direct ran
  obtain ⟨sweep, origin, entry, enters, entered⟩ := repeatable.enters policy
  unfold Ran at sums
  rw [enters] at sums
  obtain ⟨totals, x, passed, stops, room⟩ : ∃ totals x, Passed (solver.share matrix request
      scope.device) sweep entry (solver.begins request) #[] (solver.startValues request scope.device)
      totals calls x outcome last'.device ∧
      StopsOn policy (solver.begins request) scope.memory (totals.map SquareRoot.root) ∧
      totals.length ≤ iterationLimit :=
    iterate_sums repeatable.lone rfl iterationLimit { scope with device := entry } entered.resting sums
  exact ⟨totals, x, entered.went passed repeatable.installed.rows repeatable.installed.blockSize
    alike (ran.leaves repeatable.unaided), stops, room⟩

theorem Repeatable.goes (repeatable : Repeatable solver matrix request before)
    {totals : List α} {x : Array α}
    (rounds : (solver.share matrix request before).Rounds (solver.startValues request before) totals
      calls x)
    {memory : μ} (stops : StopsOn policy (solver.begins request) memory (totals.map SquareRoot.root))
    (room : totals.length ≤ iterationLimit) (statistics : Statistics) :
    ∃ outcome last, solver.Ran matrix request policy ⟨before, statistics, memory⟩ calls outcome last ∧
      Went solver matrix request before totals calls x outcome last.device := by
  obtain ⟨sweep, origin, entry, enters, entered⟩ := Repeatable.enters
    (show Repeatable solver matrix request (SolveScope.device ⟨before, statistics, memory⟩) from
      repeatable) policy
  obtain ⟨outcome, last, sums, passed⟩ : ∃ outcome last, ((solver.withLaunch .direct).iterate matrix
      policy sweep origin iterationLimit .direct (solver.begins request) #[]
      ⟨entry, statistics, memory⟩).Sums calls (.ok outcome, last) ∧
      Passed (solver.share matrix request before) sweep entry (solver.begins request) #[]
        (solver.startValues request before) totals calls x outcome last.device :=
    iterate_of_rounds repeatable.lone rfl rounds stops iterationLimit room #[] _ entered.resting rfl
  rw [← enters] at sums
  obtain ⟨last', ran, alike⟩ := Ran.of_launch .direct solver.config.launch sums
  exact ⟨outcome, last', ran, entered.went passed repeatable.installed.rows
    repeatable.installed.blockSize ⟨alike.width.symm, alike.buffers.symm⟩
    (Ran.leaves ran repeatable.unaided)⟩

theorem Went.again {totals : List α} {x : Array α}
    (went : Went solver matrix request before totals calls x outcome after)
    (repeatable : Repeatable solver matrix request before) :
    Repeatable solver matrix request after ∧
      solver.share matrix request after = solver.share matrix request before ∧
      solver.startValues request after = x := by
  obtain ⟨lone, installed, lent, unaided, positive⟩ := repeatable
  have apart := lent.iterateApart
  simp only [List.mem_cons, List.not_mem_nil, or_false, not_or] at apart
  have diagonal := went.elsewhere _ installed.diagonalHeld (Ne.symm apart.1)
  have inverse := went.elsewhere _ installed.inverseHeld (Ne.symm apart.2.1)
  have rhs := went.elsewhere _ lent.rhsHeld (Ne.symm apart.2.2)
  have length : (after.contents request.iterate).size = (before.contents request.iterate).size := by
    rw [went.iterate, Storage.size_overwrite]
  have installed' : Installed solver matrix after :=
    ⟨installed.sound, installed.rows, installed.blockSize, installed.small,
      went.held _ installed.diagonalHeld, went.held _ installed.inverseHeld,
      diagonal ▸ installed.diagonalLong, inverse ▸ installed.inverseLong⟩
  have lent' : Lent solver request after :=
    ⟨went.held _ lent.rhsHeld, went.held _ lent.iterateHeld, rhs ▸ lent.rhsLong,
      length ▸ lent.iterateLong, lent.iterateApart, fun _ given => nomatch unaided ▸ given⟩
  refine ⟨⟨lone, installed', lent', unaided, positive⟩, ?_, ?_⟩
  · simp only [share, diagonal, inverse, rhs, went.geometry]
  · have long := lent.iterateLong
    refine Storage.extract_front went.size fun index inside => ?_
    rw [went.iterate, Storage.getElem?_overwrite_front, Array.getElem?_toList]
    · rwa [Array.length_toList, went.size]
    · rwa [Array.length_toList, went.size]

theorem Went.agrees {middle last : Device α} {totals totals₁ totals₂ : List α}
    {calls₁ calls₂ : List (α × α)} {x x₁ x₂ : Array α} {outcome₁ outcome₂ : Outcome α}
    (whole : Went solver matrix request before totals calls x outcome after)
    (first : Went solver matrix request before totals₁ calls₁ x₁ outcome₁ middle)
    (second : Went solver matrix request middle totals₂ calls₂ x₂ outcome₂ last)
    (repeatable : Repeatable solver matrix request before)
    (count : outcome.iterations = outcome₁.iterations + outcome₂.iterations)
    (told : calls.map Prod.snd = (calls₁ ++ calls₂).map Prod.snd) :
    after.contents request.iterate = last.contents request.iterate ∧
      outcome.history = outcome₁.history ++ outcome₂.history ∧ calls = calls₁ ++ calls₂ := by
  obtain ⟨_, shared, starts⟩ := first.again repeatable
  have rest := second.rounds
  rw [shared, starts] at rest
  have length : totals.length = (totals₁ ++ totals₂).length := by
    rw [List.length_append, ← whole.iterations, ← first.iterations, ← second.iterations, count]
  obtain ⟨rfl, rfl, rfl⟩ := whole.rounds.determined (first.rounds.append rest) length told
  refine ⟨?_, ?_, rfl⟩
  · rw [whole.iterate, second.iterate, first.iterate, Storage.overwrite_overwrite]
    rw [Array.length_toList, Array.length_toList, first.size, second.size]
  · rw [whole.history, first.history, second.history]
    simp

theorem accepted_of_ends (ends : (solver.solve matrix request policy scope).Ends (.ok outcome, last)) :
    solver.validate matrix request scope.device = .ok () := by
  rw [solve_eq] at ends
  obtain ⟨_, told, reported, ends⟩ := meet_answers ends
  cases ends_done_iff.mp reported
  obtain ⟨_, _, asked, ends⟩ := meet_answers ends
  cases ends_done_iff.mp asked
  cases checked : solver.validate matrix request scope.device with
  | ok => rfl
  | error refusal =>
      obtain ⟨_, _, passed, _⟩ := meet_answers ends
      · change ((Failure.ofRefusal (solver.validate matrix request scope.device) :
          SolveM α μ Unit) _).Ends _ at passed
        rw [checked] at passed
        cases ends_done_iff.mp passed

theorem Ran.repeatable (ran : solver.Ran matrix request policy scope calls outcome last)
    (home : matrix.AtHome) (furnished : Furnished solver scope.device)
    (foreign : ∀ buffer ∈ request.buffers, scope.device.Holds buffer ∧
      buffer ∉ [solver.diagonal, solver.inverse])
    (unaided : request.auxiliary = none) (positive : Arithmetic.le request.norm zeroNorm = false) :
    Repeatable solver matrix request scope.device := by
  have checked := accepted_of_ends ran.ends
  obtain ⟨⟨rows, blockSize⟩, _⟩ := validate_ok_iff.mp checked
  exact ⟨home.lone, furnished.installed home.sound rows blockSize,
    lent_of_validate checked foreign, unaided, positive⟩

structure Halves (α : Type) where
  earlyCalls : List (α × α)
  early : Outcome α
  lateCalls : List (α × α)
  late : Outcome α
  device : Device α

/-- Two solves of one request. The second begins with the device and the statistics that the
first has left. -/
inductive RanTwice {μ₁ μ₂ : Type} (solver : Solver α) (matrix : Matrix α) (request : Request α)
    (first : Policy α μ₁) (second : Policy α μ₂) (device : Device α) (statistics : Statistics)
    (memory₁ : μ₁) (memory₂ : μ₂) : Halves α → Prop where
  | intro {calls₁ calls₂ : List (α × α)} {outcome₁ outcome₂ : Outcome α}
      {middle : SolveScope α μ₁} {last : SolveScope α μ₂}
      (early : solver.Ran matrix request first ⟨device, statistics, memory₁⟩ calls₁ outcome₁ middle)
      (late : solver.Ran matrix request second ⟨middle.device, middle.statistics, memory₂⟩ calls₂
        outcome₂ last) :
      RanTwice solver matrix request first second device statistics memory₁ memory₂
        ⟨calls₁, outcome₁, calls₂, outcome₂, last.device⟩

section Halving

variable {μ₁ μ₂ : Type} {first : Policy α μ₁} {second : Policy α μ₂} {device : Device α}
  {statistics : Statistics} {memory : μ} {memory₁ : μ₁} {memory₂ : μ₂} {halves : Halves α}
  {whole : SolveScope α μ}

theorem RanTwice.agrees
    (twice : RanTwice solver matrix request first second device statistics memory₁ memory₂ halves)
    (repeatable : Repeatable solver matrix request device)
    (ran : solver.Ran matrix request policy ⟨device, statistics, memory⟩ calls outcome whole)
    (count : outcome.iterations = halves.early.iterations + halves.late.iterations)
    (told : calls.map Prod.snd = (halves.earlyCalls ++ halves.lateCalls).map Prod.snd) :
    whole.device.contents request.iterate = halves.device.contents request.iterate ∧
      outcome.history = halves.early.history ++ halves.late.history ∧
      calls = halves.earlyCalls ++ halves.lateCalls := by
  obtain ⟨early, late⟩ := twice
  obtain ⟨_, _, went, _⟩ := ran.went repeatable
  obtain ⟨_, _, went₁, _⟩ := early.went repeatable
  obtain ⟨_, _, went₂, _⟩ := late.went (went₁.again repeatable).1
  exact went.agrees went₁ went₂ repeatable count told

theorem Ran.halved
    (ran : solver.Ran matrix request policy ⟨device, statistics, memory⟩ calls outcome whole)
    (repeatable : Repeatable solver matrix request device) {early late : List α}
    (history : outcome.history.toList = early ++ late)
    (stopsEarly : StopsOn first (solver.begins request) memory₁ early)
    (stopsLate : StopsOn second (solver.begins request) memory₂ late) :
    ∃ halves, RanTwice solver matrix request first second device statistics memory₁ memory₂ halves ∧
      outcome.iterations = halves.early.iterations + halves.late.iterations ∧
      halves.early.history.toList = early ∧ halves.late.history.toList = late ∧
      calls = halves.earlyCalls ++ halves.lateCalls := by
  obtain ⟨totals, x, went, _, room⟩ := ran.went repeatable
  rw [went.history, List.toList_toArray, List.map_eq_append_iff] at history
  -- the totals are cut where the history is
  obtain ⟨totals₁, totals₂, rfl, rfl, rfl⟩ := history
  rw [List.length_append] at room
  obtain ⟨middle, calls₁, calls₂, rfl, rounds₁, rounds₂⟩ := went.rounds.split
  obtain ⟨outcome₁, left, ran₁, went₁⟩ := repeatable.goes rounds₁ stopsEarly (by omega) statistics
  obtain ⟨again, shared, starts⟩ := went₁.again repeatable
  rw [← shared, ← starts] at rounds₂
  obtain ⟨outcome₂, last, ran₂, went₂⟩ := again.goes rounds₂ stopsLate (by omega) left.statistics
  refine ⟨_, .intro ran₁ ran₂, ?_, by rw [went₁.history], by rw [went₂.history], rfl⟩
  rw [went.iterations, went₁.iterations, went₂.iterations, List.length_append]

theorem RanTwice.joined
    (twice : RanTwice solver matrix request first second device statistics memory₁ memory₂ halves)
    (repeatable : Repeatable solver matrix request device)
    (stops : StopsOn policy (solver.begins request) memory
      (halves.early.history ++ halves.late.history).toList)
    (room : halves.early.iterations + halves.late.iterations ≤ iterationLimit) :
    ∃ outcome whole, solver.Ran matrix request policy ⟨device, statistics, memory⟩
        (halves.earlyCalls ++ halves.lateCalls) outcome whole ∧
      outcome.iterations = halves.early.iterations + halves.late.iterations := by
  obtain ⟨early, late⟩ := twice
  obtain ⟨totals₁, _, went₁, _⟩ := early.went repeatable
  obtain ⟨again, shared, starts⟩ := went₁.again repeatable
  obtain ⟨totals₂, _, went₂, _⟩ := late.went again
  have rest := went₂.rounds
  rw [shared, starts] at rest
  have length : (totals₁ ++ totals₂).length = _ + _ := List.length_append
  rw [← went₁.iterations, ← went₂.iterations] at length
  have residuals : (totals₁ ++ totals₂).map SquareRoot.root = _ := List.map_append
  simp only [went₁.history, went₂.history, Array.toList_append, ← residuals] at stops
  obtain ⟨outcome, whole, ran, went⟩ :=
    repeatable.goes (went₁.rounds.append rest) stops (length ▸ room) statistics
  exact ⟨outcome, whole, ran, went.iterations.trans length⟩

end Halving

/-- Splitting a solve is invisible. One solve and two in a row that make as many iterations and
are told the same by their group leave the same bits in the iterate, and the history of the
one is that of the two behind each other. Wherever a solve could stop and another begin there
are such two, and for two there is such a one. -/
theorem split_solve_invisible {made device : Device α} (setUp : SetUp solver made)
    (communicator : Communicator) (home : matrix.AtHome) (statistics : Statistics)
    (kept : ∀ buffer ∈ [solver.diagonal, solver.inverse], device.Holds buffer ∧
      device.contents buffer = made.contents buffer)
    (foreign : ∀ buffer ∈ request.buffers, device.Holds buffer ∧
      buffer ∉ [solver.diagonal, solver.inverse])
    (unaided : request.auxiliary = none) (positive : Arithmetic.le request.norm zeroNorm = false)
    {μ₁ μ₂ : Type} (policy : Policy α μ) (first : Policy α μ₁) (second : Policy α μ₂)
    (memory : μ) (memory₁ : μ₁) (memory₂ : μ₂) :
    (∀ calls outcome whole, (solver.withCommunicator communicator).Ran matrix request policy
        ⟨device, statistics, memory⟩ calls outcome whole →
      (∀ halves, (solver.withCommunicator communicator).RanTwice matrix request first second device
          statistics memory₁ memory₂ halves →
        outcome.iterations = halves.early.iterations + halves.late.iterations →
        calls.map Prod.snd = (halves.earlyCalls ++ halves.lateCalls).map Prod.snd →
        whole.device.contents request.iterate = halves.device.contents request.iterate ∧
          outcome.history = halves.early.history ++ halves.late.history ∧
          calls = halves.earlyCalls ++ halves.lateCalls) ∧
      ∀ early late, outcome.history.toList = early ++ late →
        StopsOn first (solver.begins request) memory₁ early →
        StopsOn second (solver.begins request) memory₂ late →
        ∃ halves, (solver.withCommunicator communicator).RanTwice matrix request first second device
            statistics memory₁ memory₂ halves ∧
          outcome.iterations = halves.early.iterations + halves.late.iterations ∧
          halves.early.history.toList = early ∧ halves.late.history.toList = late ∧
          calls = halves.earlyCalls ++ halves.lateCalls) ∧
    ∀ halves, (solver.withCommunicator communicator).RanTwice matrix request first second device
        statistics memory₁ memory₂ halves →
      StopsOn policy (solver.begins request) memory
        (halves.early.history ++ halves.late.history).toList →
      halves.early.iterations + halves.late.iterations ≤ iterationLimit →
      ∃ outcome whole, (solver.withCommunicator communicator).Ran matrix request policy
          ⟨device, statistics, memory⟩ (halves.earlyCalls ++ halves.lateCalls) outcome whole ∧
        outcome.iterations = halves.early.iterations + halves.late.iterations := by
  have furnished := setUp.furnished.of_kept communicator kept
  refine ⟨fun calls outcome whole ran => ?_, fun halves twice stops room => ?_⟩
  · have repeatable := ran.repeatable home furnished foreign unaided positive
    exact ⟨fun halves twice count told => twice.agrees repeatable ran count told,
      fun early late history stopsEarly stopsLate =>
        ran.halved repeatable history stopsEarly stopsLate⟩
  · obtain ⟨early, late⟩ := twice
    have repeatable := early.repeatable home furnished foreign unaided positive
    exact RanTwice.joined (.intro early late) repeatable stops room

end Solving

/-- Two rows and a ghost one, with a halo in which nobody else is. -/
def edgeRows : Matrix ℚ :=
  ⟨2, 3, 1, #[2, 2], #[1, 1, 1], #[1, 0, 2], #[0, 1, 3], some (.ofBlockRows .alone [] 1)⟩

def edgeSolver : Solver ℚ :=
  ⟨"edge", .standard, .scalar, 2, ⟨0⟩, ⟨1⟩, .alone, Statistics.recordSetup {} 0⟩

/-- The iterate comes with a value for the ghost row, which no solve has a look at. -/
def edgeDevice : Device ℚ :=
  ⟨.narrowest, #[#[2, 2], #[1 / 2, 1 / 2], #[3, 4], #[1, 0, 9]], {}, #[]⟩

theorem edge_solver_set_up : ∃ made, setupWithInverse "edge" edgeRows .standard
    (.reciprocals #[1 / 2, 1 / 2]) (Device.create .narrowest) = (.ok edgeSolver, made) ∧
    ∀ buffer ∈ [edgeSolver.diagonal, edgeSolver.inverse], edgeDevice.Holds buffer ∧
      edgeDevice.contents buffer = made.contents buffer := by
  refine ⟨_, rfl, fun buffer listed => ?_⟩
  simp only [edgeSolver, List.mem_cons, List.not_mem_nil, or_false] at listed
  rcases listed with rfl | rfl <;> exact ⟨by decide, rfl⟩

theorem edge_rows_assembled : Matrix.assemble 2 3 1 #[2, 2] [⟨0, 1, 1⟩, ⟨1, 0, 1⟩, ⟨1, 2, 1⟩] =
    .ok { edgeRows with halo := none } := by
  cbv

theorem edge_rows_attached : Matrix.withHalo { edgeRows with halo := none }
    (.ofBlockRows .alone [] 1) = .ok edgeRows := by
  cbv

theorem edge_rows_at_home : edgeRows.AtHome :=
  .haloed edge_rows_assembled rfl rfl edge_rows_attached

def passes (count : Nat) : Policy ℚ Unit where
  test iteration _ _ memory := (if count ≤ iteration then .maxIteration else .iterating, memory)

def edgeSolve : Collective ℚ (Except (Failure ℚ) (Outcome ℚ) × SolveScope ℚ Unit) :=
  @solve ℚ _ _ ⟨id⟩ edgeSolver edgeRows ⟨⟨2⟩, ⟨3⟩, 1, none⟩ (passes 3) ⟨edgeDevice, {}, ()⟩

/-- Three iterations are one and then two. -/
theorem edge_rows_split :
    letI : SquareRoot ℚ := ⟨id⟩
    ∃ made outcome whole halves, SetUp edgeSolver made ∧
      edgeSolver.Ran edgeRows ⟨⟨2⟩, ⟨3⟩, 1, none⟩ (passes 3) ⟨edgeDevice, {}, ()⟩ [] outcome
        whole ∧
      edgeSolver.RanTwice edgeRows ⟨⟨2⟩, ⟨3⟩, 1, none⟩ (passes 1) (passes 2) edgeDevice {} ()
        () halves ∧
      outcome.iterations = 3 ∧
      whole.device.contents ⟨3⟩ = halves.device.contents ⟨3⟩ ∧
      outcome.history = halves.early.history ++ halves.late.history := by
  let root : SquareRoot ℚ := ⟨id⟩
  obtain ⟨made, ran, kept⟩ := edge_solver_set_up
  have read : edgeSolve.answer?.map (fun outcome => (outcome.iterations, outcome.history)) =
      some (3, #[10, 5 / 2, 5 / 8]) := by
    decide +kernel
  obtain ⟨outcome, answered, shown⟩ := Option.map_eq_some_iff.mp read
  obtain ⟨count, history⟩ := Prod.mk.inj shown
  obtain ⟨whole, ended⟩ := Collective.done_of_answer answered
  have ranThrice : edgeSolver.Ran edgeRows ⟨⟨2⟩, ⟨3⟩, 1, none⟩ (passes 3)
      ⟨edgeDevice, {}, ()⟩ [] outcome whole := by
    change edgeSolve.Sums _ _
    rw [ended]
    exact .done _
  obtain ⟨agrees, halved⟩ := (split_solve_invisible (.given ran) .alone edge_rows_at_home {} kept (by decide) rfl
    (by decide +kernel) (passes 3) (passes 1) (passes 2) () () ()).1 [] outcome whole ranThrice
  obtain ⟨halves, twice, counted, _, _, called⟩ := halved [10] [5 / 2, 5 / 8]
    (congrArg Array.toList history) (.now rfl) (.later rfl (.now rfl))
  obtain ⟨same, joined, _⟩ := agrees halves twice counted (congrArg _ called)
  exact ⟨made, outcome, whole, halves, .given ran, ranThrice, twice, count, same, joined⟩

end Solver
end Relaxation

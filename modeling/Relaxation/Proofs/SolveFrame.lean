import Relaxation.Proofs.Opening
import Relaxation.Proofs.Returns
import Relaxation.Proofs.SplitSolve

/-!
What a solve that answers has changed. Buffers may be longer than a solve needs and are handed on
whole, and still it writes to the owned values of its iterate and to the extended values of its
scratch alone; between two sweeps these two agree on the owned values.
-/

namespace Relaxation

variable {α μ : Type}

open Collective
open Storage (SameOutside)

theorem Storage.SameOutside.of_tail {last : Nat} {before after : Array α} (long : last ≤ before.size)
    (long' : last ≤ after.size)
    (behind : ∀ index, last ≤ index → after[index]? = before[index]?) :
    SameOutside 0 last before after := by
  refine ⟨Nat.le_antisymm ?_ ?_, fun _ low => absurd low (Nat.not_lt_zero _), behind⟩
  · have ends := behind before.size long
    rw [Array.getElem?_eq_none (Nat.le_refl _)] at ends
    exact Array.getElem?_eq_none_iff.mp ends
  · have ends := behind after.size long'
    rw [Array.getElem?_eq_none (Nat.le_refl _)] at ends
    exact Array.getElem?_eq_none_iff.mp ends.symm

namespace Matrix

variable {matrix : Matrix α} {input : Buffer} {device after : Device α}

theorem refresh_returns (fits : ∀ halo ∈ matrix.halo, halo.FitsIn matrix)
    (covers : matrix.rows ≤ matrix.columns)
    (long : matrix.columns * matrix.blockSize ≤ (device.contents input).size)
    {result : Except (Failure α) Unit}
    (returns : (matrix.refresh input device).Returns (result, after)) :
    Refreshed matrix input device after := by
  have owned : matrix.rows * matrix.blockSize ≤ (device.contents input).size :=
    (Nat.mul_le_mul_right matrix.blockSize covers).trans long
  cases present : matrix.halo with
  | none =>
      rw [refresh_alone present] at returns
      cases returns_done_iff.mp returns
      exact .refl ..
  | some halo =>
      have fit := fits halo present
      cases group : halo.communicator with
      | alone =>
          rw [refresh_of_lone (lone_of_alone present fit group) owned] at returns
          cases returns_done_iff.mp returns
          exact .refl ..
      | member rank ranks =>
          have met := refresh_member present group (fit.blockSize ▸ owned)
          rw [fit.blockSize] at met
          rw [met] at returns
          cases returns with
          | @exchange _ _ _ _ answer _ answered rest =>
              have same : SameOutside (matrix.rows * matrix.blockSize)
                  (matrix.columns * matrix.blockSize) (device.contents input)
                  ((device.contents input).extract 0 (matrix.rows * matrix.blockSize) ++
                    answer.2) := by
                cases answered with
                | unsent stuck =>
                    have packs := parcels_ok fit owned
                    rw [stuck] at packs
                    cases packs
                | taken sent self shared => exact same_outside_received fit covers long self shared
              obtain ⟨outcome, ghost⟩ := answer
              -- a fault of the exchange is passed on behind the values that came in
              cases outcome <;> cases returns_done_iff.mp rest <;> exact .of_store same

variable [Arithmetic α]

inductive Built : Matrix α → Prop where
  | whole {rows columns blockSize : Nat} {diagonal : Array α} {entries : List (Entry α)}
      {matrix : Matrix α} (assembled : assemble rows columns blockSize diagonal entries = .ok matrix) :
      Built matrix
  | haloed {rows columns blockSize : Nat} {diagonal : Array α} {entries : List (Entry α)}
      {matrix haloed : Matrix α} {communicator : Communicator} {neighbors : List Neighbor}
      (assembled : assemble rows columns blockSize diagonal entries = .ok matrix)
      (attached : matrix.withHalo (.ofBlockRows communicator neighbors blockSize) = .ok haloed) :
      Built haloed

theorem Built.sound (built : matrix.Built) : matrix.Sound := by
  cases built with
  | whole assembled => exact sound_of_assemble assembled
  | haloed assembled attached =>
      rw [(with_halo_ok attached).1]
      exact (sound_of_assemble assembled).with_halo _

theorem Built.fits (built : matrix.Built) : ∀ halo ∈ matrix.halo, halo.FitsIn matrix := by
  cases built with
  | whole assembled =>
      obtain ⟨_, _, _, _, rfl⟩ := assemble_ok assembled
      exact fun _ present => nomatch present
  | @haloed rows columns blockSize diagonal entries _ _ _ _ assembled attached =>
      obtain ⟨positive, _, _, _, rfl⟩ := assemble_ok assembled
      have fit := @fits_in_of_accepted _ (ofEntries rows columns blockSize diagonal entries) _ _ _
        positive attached
      obtain ⟨rfl, _⟩ := with_halo_ok attached
      rintro _ ⟨⟩
      exact fit

end Matrix

namespace Solver

variable [Arithmetic α] [SquareRoot α] {solver : Solver α} {matrix : Matrix α} {sweep : Sweep}
  {request : Request α} {policy : Policy α μ} {entry device after : Device α}
  {scope last : SolveScope α μ} {launcher : Launcher} {origin : ScratchOrigin} {outcome : Outcome α}

/-- Where a loop stands between two sweeps: its two vectors have changed in their own ranges only,
and agree on the owned values. -/
structure Within (matrix : Matrix α) (sweep : Sweep) (entry device : Device α) : Prop where
  fitting : Fitting matrix sweep device
  iterate : SameOutside 0 (matrix.rows * matrix.blockSize) (entry.contents sweep.iterate)
    (device.contents sweep.iterate)
  previous : SameOutside 0 (matrix.columns * matrix.blockSize) (entry.contents sweep.previous)
    (device.contents sweep.previous)
  agree : ∀ index, index < matrix.rows * matrix.blockSize →
    (device.contents sweep.previous)[index]? = (device.contents sweep.iterate)[index]?

omit [Arithmetic α] [SquareRoot α] in
theorem Within.of_alike (within : Within matrix sweep entry device) (alike : after.Alike device) :
    Within matrix sweep entry after where
  fitting := within.fitting.of_sizes alike.width (by simp only [Device.sizes, alike.buffers])
  iterate := alike.contents _ ▸ within.iterate
  previous := alike.contents _ ▸ within.previous
  agree index low := by
    rw [alike.contents, alike.contents]
    exact within.agree index low

omit [Arithmetic α] [SquareRoot α] in
theorem Within.refreshed (within : Within matrix sweep entry device)
    (refreshed : Matrix.Refreshed matrix sweep.previous device after) :
    Within matrix sweep entry after where
  fitting := within.fitting.of_sizes refreshed.width refreshed.sizes
  iterate := by
    rw [refreshed.others _ within.fitting.iterate_ne]
    exact within.iterate
  previous := within.previous.trans (refreshed.ghosts.wider (Nat.zero_le _) (Nat.le_refl _))
  agree index low := by
    rw [refreshed.ghosts.below index low, refreshed.others _ within.fitting.iterate_ne]
    exact within.agree index low

omit [SquareRoot α] in
theorem Within.advanced (within : Within matrix sweep entry device)
    (advanced : Advanced matrix sweep device after) : Within matrix sweep entry after := by
  have fitting := within.fitting
  have length := fitting.length_advance
  rw [← fitting.rows, ← fitting.blockSize] at length
  have owned : matrix.rows * matrix.blockSize ≤ matrix.columns * matrix.blockSize :=
    Nat.mul_le_mul_right _ fitting.sound.covers
  have iterate := SameOutside.overwrite (device.contents sweep.iterate) 0 (advance matrix sweep
    (device.sources sweep) (device.contents sweep.iterate) (device.contents sweep.previous))
  have previous := SameOutside.overwrite (device.contents sweep.previous) 0 (advance matrix sweep
    (device.sources sweep) (device.contents sweep.iterate) (device.contents sweep.previous))
  rw [Nat.zero_add, length, ← advanced.iterate] at iterate
  rw [Nat.zero_add, length, ← advanced.previous] at previous
  refine ⟨fitting.of_sizes advanced.width advanced.sizes, within.iterate.trans iterate,
    within.previous.trans (previous.wider (Nat.le_refl _) owned), fun index low => ?_⟩
  have low' := low
  rw [← length] at low'
  rw [advanced.iterate, advanced.previous,
    Storage.getElem?_overwrite_front _ low' (length ▸ owned.trans fitting.extended),
    Storage.getElem?_overwrite_front _ low' (length ▸ fitting.iterate_long)]

theorem sweep_once_returns (solver : Solver α) (fits : ∀ halo ∈ matrix.halo, halo.FitsIn matrix)
    (serves : Launcher.Serves sweep launcher) (within : Within matrix sweep entry scope.device)
    {residual : α} {next : Launcher}
    (returns : (solver.sweepOnce matrix sweep launcher scope).Returns (.ok (residual, next), last)) :
    Within matrix sweep entry last.device ∧ Launcher.Serves sweep next := by
  have fitting := within.fitting
  rw [sweep_once_eq solver launcher fitting] at returns
  obtain ⟨_, _, failed⟩ | ⟨_, middle, reached, rest⟩ := meet_returns returns
  · cases failed
  unfold SolveM.onDevice at reached
  obtain ⟨⟨result, device⟩, refreshes, stored⟩ := returns_bind_iff.mp reached
  cases returns_done_iff.mp stored
  have within' := within.refreshed
    (Matrix.refresh_returns fits fitting.sound.covers fitting.extended refreshes)
  obtain ⟨later, after, ran, serves', advanced⟩ :=
    finish_sweep_serves solver { scope with device := device } within'.fitting serves
  rw [ran] at rest
  obtain ⟨total, _, ended⟩ := returns_bind_iff.mp rest
  cases returns_done_iff.mp ended
  exact ⟨within'.advanced advanced, serves'⟩

theorem iterate_returns (fits : ∀ halo ∈ matrix.halo, halo.FitsIn matrix) (remaining : Nat)
    (progress : Progress α) (history : Array α) (serves : Launcher.Serves sweep launcher)
    (within : Within matrix sweep entry scope.device)
    (returns : (solver.iterate matrix policy sweep origin remaining launcher progress history
      scope).Returns (.ok outcome, last)) :
    Within matrix sweep entry last.device ∧ outcome.scratch = some origin ∧
      0 < outcome.iterations := by
  -- the induction is on what the iteration counter can still count
  induction remaining generalizing launcher progress history scope with
  | zero => cases returns_done_iff.mp returns
  | succ remaining ih =>
      rw [iterate_succ] at returns
      obtain ⟨_, _, failed⟩ | ⟨⟨residual, next⟩, swept, reached, rest⟩ := meet_returns returns
      · cases failed
      obtain ⟨within', serves'⟩ := sweep_once_returns solver fits serves within reached
      obtain ⟨asked, alike, _, judged⟩ := solver.judge_run matrix policy sweep origin remaining next
        progress history residual swept
      rw [judged] at rest
      split at rest
      · cases returns_done_iff.mp rest
        exact ⟨within'.of_alike alike, rfl, Nat.succ_pos _⟩
      · exact ih _ _ serves' (within'.of_alike alike) rest

theorem relax_returns (built : matrix.Built) (furnished : Furnished solver scope.device)
    (lent : Lent solver request scope.device) (rows : matrix.rows = solver.rows)
    (blockSize : matrix.blockSize = solver.kernel.blockSize)
    (returns : (solver.relax matrix request policy scope).Returns (.ok outcome, last)) :
    ∃ sweep origin entry, Begun solver matrix request scope.device sweep entry ∧
      Supplied request.auxiliary (matrix.columns * matrix.blockSize) scope.device sweep.previous
        origin ∧
      Within matrix sweep entry last.device ∧ outcome.scratch = some origin ∧
      0 < outcome.iterations := by
  have relaxes := relax_relaxes policy scope furnished lent rows blockSize
  generalize solver.relax matrix request policy scope = program at relaxes returns
  cases relaxes with
  | @looped sweep origin entry provided begun supplied =>
      have begun := begun built.sound
      have initial : Within matrix sweep entry { scope with device := entry }.device :=
        ⟨begun.fitting, .refl .., .refl .., fun index low => by
          rw [begun.previous index (begun.owned ▸ low), begun.iterate]⟩
      exact ⟨sweep, origin, entry, begun, blockSize ▸ supplied,
        iterate_returns built.fits _ _ _ (Launcher.serves_of_mode ..) initial returns⟩
  | cramped => cases returns_done_iff.mp returns

def scratchHandle (auxiliary : Option Buffer) (needed : Nat) (device : Device α) : Buffer :=
  match auxiliary with
  | none => device.nextHandle
  | some buffer => if needed ≤ (device.contents buffer).size then buffer else device.nextHandle

omit [Arithmetic α] [SquareRoot α] in
theorem Supplied.handle {auxiliary : Option Buffer} {needed : Nat} {before : Device α}
    {buffer : Buffer} (supplied : Supplied auxiliary needed before buffer origin) :
    buffer = scratchHandle auxiliary needed before := by
  cases supplied with
  | borrowed given long =>
      subst given
      exact (if_pos long).symm
  | allocated short =>
      cases auxiliary with
      | none => rfl
      | some given => exact (if_neg (Nat.not_le.mpr (short given rfl))).symm

omit [Arithmetic α] [SquareRoot α] in
theorem Supplied.borrowed_iff {auxiliary : Option Buffer} {needed : Nat} {before : Device α}
    {buffer : Buffer} (supplied : Supplied auxiliary needed before buffer origin) :
    origin = .borrowed ↔ ∃ given ∈ auxiliary, needed ≤ (before.contents given).size := by
  cases supplied with
  | borrowed given long => exact ⟨fun _ => ⟨buffer, given, long⟩, fun _ => rfl⟩
  | allocated short =>
      refine ⟨nofun, ?_⟩
      rintro ⟨given, listed, long⟩
      exact absurd (short given listed) (Nat.not_lt.mpr long)

/-- What a solve that answers has changed: owned values of its iterate and, if it was lent a
scratch that is long enough and has entered its loop, extended values of that. Behind the loop its
two vectors agree on the owned values. -/
structure Framed (solver : Solver α) (matrix : Matrix α) (request : Request α)
    (before after : Device α) (outcome : Outcome α) : Prop where
  sources : ∀ buffer ∈ [solver.diagonal, solver.inverse, request.rhs],
    after.contents buffer = before.contents buffer
  iterate : SameOutside 0 (matrix.rows * matrix.blockSize) (before.contents request.iterate)
    (after.contents request.iterate)
  auxiliary : ∀ buffer ∈ request.auxiliary, SameOutside 0 (matrix.columns * matrix.blockSize)
    (before.contents buffer) (after.contents buffer)
  borrowed : outcome.scratch = some .borrowed ↔ 0 < outcome.iterations ∧
    ∃ buffer ∈ request.auxiliary,
      matrix.columns * matrix.blockSize ≤ (before.contents buffer).size
  elsewhere : ∀ buffer, before.Holds buffer → buffer ≠ request.iterate →
    (outcome.scratch = some .borrowed → buffer ∉ request.auxiliary) →
      after.contents buffer = before.contents buffer
  idle : outcome.iterations = 0 → ∀ buffer, after.contents buffer = before.contents buffer
  agree : 0 < outcome.iterations → ∀ index, index < matrix.rows * matrix.blockSize →
    (after.contents (scratchHandle request.auxiliary (matrix.columns * matrix.blockSize)
      before))[index]? = (after.contents request.iterate)[index]?

omit [SquareRoot α] in
theorem Framed.of_idle (same : ∀ buffer, after.contents buffer = device.contents buffer) :
    Framed solver matrix request device after nothingToSolve where
  sources buffer _ := same buffer
  iterate := same _ ▸ .refl ..
  auxiliary buffer _ := same buffer ▸ .refl ..
  borrowed := ⟨nofun, fun entered => absurd entered.1 (Nat.lt_irrefl 0)⟩
  elsewhere buffer _ _ _ := same buffer
  idle _ := same
  agree entered := absurd entered (Nat.lt_irrefl 0)

omit [SquareRoot α] in
theorem Begun.borrowed_tail {buffer : Buffer}
    (begun : Begun solver matrix request device sweep entry) (given : request.auxiliary = some buffer)
    (long : matrix.columns * matrix.blockSize ≤ (device.contents buffer).size) :
    SameOutside 0 (matrix.columns * matrix.blockSize) (device.contents buffer)
      (entry.contents sweep.previous) := by
  have fitting := begun.fitting
  have shape : matrix.blockSize = solver.kernel.blockSize := begun.kernel ▸ fitting.blockSize
  refine .of_tail long fitting.extended fun index behind => ?_
  rw [begun.ghosts index]
  · unfold scratchValues
    rw [given, ← shape]
    simp only [if_pos long]
  · rw [begun.owned]
    exact (Nat.mul_le_mul_right _ fitting.sound.covers).trans behind

omit [SquareRoot α] in
theorem Framed.of_loop (begun : Begun solver matrix request device sweep entry)
    (supplied : Supplied request.auxiliary (matrix.columns * matrix.blockSize) device
      sweep.previous origin)
    (furnished : Furnished solver device) (lent : Lent solver request device)
    (within : Within matrix sweep entry after)
    (scratch : outcome.scratch = some origin) (entered : 0 < outcome.iterations)
    (leaves : ∀ buffer, device.Holds buffer → buffer ≠ request.iterate →
      (buffer ∈ request.auxiliary →
        (device.contents buffer).size < matrix.columns * matrix.blockSize) →
      after.contents buffer = device.contents buffer) :
    Framed solver matrix request device after outcome := by
  have borrowed : outcome.scratch = some .borrowed ↔ ∃ buffer ∈ request.auxiliary,
      matrix.columns * matrix.blockSize ≤ (device.contents buffer).size := by
    rw [scratch, Option.some_inj]
    exact supplied.borrowed_iff
  refine ⟨fun buffer listed => ?_, ?_, fun buffer given => ?_,
    borrowed.trans (and_iff_right entered).symm, fun buffer held apart spared => ?_,
    fun idle => absurd entered (idle ▸ Nat.lt_irrefl 0), fun _ index low => ?_⟩
  · have apart : buffer ≠ request.iterate := fun same => lent.iterateApart (same ▸ listed)
    have held : device.Holds buffer := by
      simp only [List.mem_cons, List.not_mem_nil, or_false] at listed
      rcases listed with rfl | rfl | rfl
      · exact furnished.diagonalHeld
      · exact furnished.inverseHeld
      · exact lent.rhsHeld
    exact leaves buffer held apart fun given =>
      absurd (List.mem_cons_of_mem _ listed) (lent.auxiliary buffer given).2
  · have same := within.iterate
    rwa [begun.iterate, begun.handle] at same
  · generalize placed : sweep.previous = previous at supplied
    cases supplied with
    | borrowed lender long =>
        obtain rfl : previous = buffer := Option.some_inj.mp (lender.symm.trans given)
        exact placed ▸ (begun.borrowed_tail lender long).trans within.previous
    | allocated short =>
        obtain ⟨held, apart⟩ := lent.auxiliary buffer given
        rw [leaves buffer held (fun same => apart (same ▸ List.mem_cons_self)) (short buffer)]
        exact .refl ..
  · refine leaves buffer held apart fun given => Nat.lt_of_not_le fun long => ?_
    exact spared (borrowed.mpr ⟨buffer, given, long⟩) given
  · rw [← supplied.handle, ← begun.handle]
    exact within.agree index low

omit [Arithmetic α] [SquareRoot α] in
theorem Framed.of_alike {before : Device α} (framed : Framed solver matrix request before after outcome)
    (alike : before.Alike device) : Framed solver matrix request device after outcome := by
  obtain ⟨width, buffers, counters, events⟩ := before
  obtain ⟨width', buffers', counters', events'⟩ := device
  obtain ⟨rfl, rfl⟩ := alike
  exact ⟨framed.sources, framed.iterate, framed.auxiliary, framed.borrowed, framed.elsewhere,
    framed.idle, framed.agree⟩

theorem solve_returns (returns : (solver.solve matrix request policy scope).Returns
    (.ok outcome, last)) : solver.validate matrix request scope.device = .ok () ∧
      ∃ now, ∃ asked : SolveScope α μ, asked.device.Alike scope.device ∧
        (solver.conclude matrix request policy now asked).Returns (.ok outcome, last) := by
  cases checked : solver.validate matrix request scope.device with
  | error refusal =>
      rw [solve_refused policy checked] at returns
      cases returns_done_iff.mp returns
  | ok =>
      obtain ⟨asked, alike, _, opened⟩ := solve_opens policy checked
      rw [opened] at returns
      split at returns
      · obtain ⟨total, _, rest⟩ := returns_bind_iff.mp returns
        exact ⟨rfl, _, asked, alike, rest⟩
      · exact ⟨rfl, false, asked, alike, returns⟩

theorem solve_framed (built : matrix.Built) (furnished : Furnished solver scope.device)
    (foreign : ∀ buffer ∈ request.buffers, scope.device.Holds buffer ∧
      buffer ∉ [solver.diagonal, solver.inverse])
    (returns : (solver.solve matrix request policy scope).Returns (.ok outcome, last)) :
    Framed solver matrix request scope.device last.device outcome := by
  obtain ⟨checked, now, asked, alike, concluded⟩ := solve_returns returns
  have lent := lent_of_validate checked foreign
  obtain ⟨⟨rows, blockSize⟩, _⟩ := validate_ok_iff.mp checked
  have grown := Device.Extends.of_alike alike
  cases now with
  | true =>
      obtain ⟨after, same, ended⟩ := conclude_at_once solver matrix request policy asked
      rw [ended] at concluded
      cases returns_done_iff.mp concluded
      exact .of_idle fun buffer => (same.contents buffer).trans (alike.contents buffer)
  | false =>
      have furnished' := furnished.of_extends grown
      have lent' := lent.of_extends grown
      obtain ⟨sweep, origin, entry, begun, supplied, within, scratch, entered⟩ :=
        relax_returns built furnished' lent' rows blockSize concluded
      refine (Framed.of_loop begun supplied furnished' lent' within scratch entered
        fun buffer held apart spared => ?_).of_alike alike
      rw [alike.contents] at spared ⊢
      refine solve_leaves apart (blockSize ▸ spared)
        (fun given listed => (lent.auxiliary given listed).1) ?_ returns.ends
      unfold Device.Holds at held ⊢
      rwa [alike.buffers] at held

/-- However a group's steps are ordered, a rank whose solve comes to an answer has changed nothing
but the owned values of its iterate and the extended values of a scratch on loan. -/
theorem answered_solve_framed {made : Device α} (setUp : SetUp solver made)
    (communicator : Communicator) (built : matrix.Built) (policy : Policy α μ)
    (scope : SolveScope α μ)
    (kept : ∀ buffer ∈ [solver.diagonal, solver.inverse], scope.device.Holds buffer ∧
      scope.device.contents buffer = made.contents buffer)
    (foreign : ∀ buffer ∈ request.buffers, scope.device.Holds buffer ∧
      buffer ∉ [solver.diagonal, solver.inverse])
    {programs : List (Collective α (Except (Failure α) (Outcome α) × SolveScope α μ))} {rank : Nat}
    (placed : programs[rank]? =
      some ((solver.withCommunicator communicator).solve matrix request policy scope))
    {state : Group.State α (Except (Failure α) (Outcome α) × SolveScope α μ)} {passed : Nat}
    (reached : Group.Steps (Group.start programs) state)
    (ended : state.members[rank]? = some ⟨.done (.ok outcome, last), passed⟩) :
    Framed solver matrix request scope.device last.device outcome := by
  have returns := Group.returns_of_steps reached placed ended
  have framed := solve_framed built (setUp.furnished.of_kept communicator kept) foreign returns
  exact ⟨framed.sources, framed.iterate, framed.auxiliary, framed.borrowed, framed.elsewhere,
    framed.idle, framed.agree⟩

/-- A scratch on loan with a value behind those of the three columns. -/
def lentDevice : Device ℚ :=
  { edgeDevice with buffers := edgeDevice.buffers.push #[7, 7, 7, 8] }

def lentSolve : Collective ℚ (Except (Failure ℚ) (Outcome ℚ) × SolveScope ℚ Unit) :=
  @solve ℚ _ _ ⟨id⟩ edgeSolver edgeRows ⟨⟨2⟩, ⟨3⟩, 1, some ⟨4⟩⟩ (passes 2) ⟨lentDevice, {}, ()⟩

/-- The values behind the rows of the iterate and behind the columns of the scratch stay. -/
theorem lent_tails_stay : ∃ made outcome last, SetUp edgeSolver made ∧
    lentSolve = .done (.ok outcome, last) ∧ outcome.iterations = 2 ∧
    (last.device.contents ⟨3⟩)[2]? = some 9 ∧ (last.device.contents ⟨4⟩)[3]? = some 8 ∧
    (last.device.contents ⟨4⟩)[1]? = (last.device.contents ⟨3⟩)[1]? := by
  let root : SquareRoot ℚ := ⟨id⟩
  obtain ⟨made, ran, kept⟩ := edge_solver_set_up
  have kept' : ∀ buffer ∈ [edgeSolver.diagonal, edgeSolver.inverse], lentDevice.Holds buffer ∧
      lentDevice.contents buffer = made.contents buffer := by
    intro buffer listed
    rw [← (kept buffer listed).2]
    simp only [edgeSolver, List.mem_cons, List.not_mem_nil, or_false] at listed
    rcases listed with rfl | rfl <;> exact ⟨by decide, rfl⟩
  have counted : lentSolve.answer?.map Outcome.iterations = some 2 := by decide +kernel
  obtain ⟨outcome, answered, iterations⟩ := Option.map_eq_some_iff.mp counted
  obtain ⟨last, ended⟩ := Collective.done_of_answer answered
  have foreign : ∀ buffer ∈ (⟨⟨2⟩, ⟨3⟩, 1, some ⟨4⟩⟩ : Request ℚ).buffers,
      lentDevice.Holds buffer ∧ buffer ∉ [edgeSolver.diagonal, edgeSolver.inverse] := by
    decide
  have placed : [lentSolve][0]? = some lentSolve := rfl
  have finished : (Group.start [lentSolve]).members[0]? = some ⟨.done (.ok outcome, last), 0⟩ := by
    rw [ended]
    rfl
  have framed := answered_solve_framed (.given ran) .alone
    (.haloed edge_rows_assembled edge_rows_attached) (passes 2) ⟨lentDevice, {}, ()⟩ kept' foreign
    placed (.refl _) finished
  refine ⟨made, outcome, last, .given ran, ended, iterations, ?_, ?_, ?_⟩
  · exact framed.iterate.behind 2 (by decide)
  · exact (framed.auxiliary ⟨4⟩ rfl).behind 3 (by decide)
  · exact framed.agree (by omega) 1 (by decide)

end Solver
end Relaxation

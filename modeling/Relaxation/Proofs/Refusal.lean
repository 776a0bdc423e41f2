import Relaxation.Proofs.Frame
import Relaxation.Proofs.HaloLoop
import Relaxation.Proofs.ResidualLoop

/-!
Refusals of a solve. Its checks and its copy of the start vector can refuse, and neither has
written anything by then; past the copy no sweep is refused, whatever the matrix holds.
-/

namespace Relaxation

variable {α β γ δ μ σ : Type}

namespace Collective

/-- A program all of whose ends are good. The ghost values of an exchange are filled in
place, so as many come back as it was given. -/
inductive Always (good : β → Prop) : Collective α β → Prop where
  | done {result : β} (holds : good result) : Always good (.done result)
  | sum {value : α} {next : α → Collective α β} (rest : ∀ total, Always good (next total)) :
      Always good (.sum value next)
  | exchange {neighbors : List Neighbor} {owned ghost : Array α}
      {next : Exchanged α → Collective α β}
      (rest : ∀ answer : Exchanged α, answer.2.size = ghost.size → Always good (next answer)) :
      Always good (.exchange neighbors owned ghost next)

variable {good : β → Prop} {good' : γ → Prop} {program : Collective α β}

theorem Always.bind {next : β → Collective α γ} (always : program.Always good)
    (rest : ∀ result, good result → (next result).Always good') :
    (program.bind next).Always good' := by
  induction always with
  | done holds => exact rest _ holds
  | sum _ ih => exact .sum ih
  | exchange _ ih => exact .exchange ih

theorem Always.mono {good' : β → Prop} (always : program.Always good)
    (weaker : ∀ result, good result → good' result) : program.Always good' := by
  induction always with
  | done holds => exact .done (weaker _ holds)
  | sum _ ih => exact .sum ih
  | exchange _ ih => exact .exchange ih

theorem Always.holds {result : β} (always : (.done result : Collective α β).Always good) :
    good result := by
  obtain ⟨holds⟩ := always
  exact holds

theorem Always.of_ends (ends : ∀ result, program.Ends result → good result) :
    program.Always good := by
  induction program with
  | done result => exact .done (ends result (.done result))
  | sum value next ih => exact .sum fun total => ih total fun result rest => ends result (.sum total rest)
  | exchange neighbors owned ghost next ih =>
      exact .exchange fun answer _ => ih answer fun result rest => ends result (.exchange answer rest)

theorem always_anything (program : Collective α β) : program.Always fun _ => True :=
  .of_ends fun _ _ => trivial

/-- What a program is refused with, if it is without any call. -/
def refusal? : Collective α (Except (Failure α) β × σ) → Option (Refusal α)
  | .done (.error (.refused refusal), _) => some refusal
  | _ => none

theorem done_of_refusal {program : Collective α (Except (Failure α) β × σ)} {refusal : Refusal α}
    (refused : program.refusal? = some refusal) :
    ∃ last, program = .done (.error (.refused refusal), last) := by
  unfold refusal? at refused
  split at refused
  · cases refused
    exact ⟨_, rfl⟩
  · cases refused

end Collective

open Collective

inductive Unrefused (holds : β → σ → Prop) : Except (Failure α) β × σ → Prop where
  | ok {value : β} {after : σ} (given : holds value after) : Unrefused holds (.ok value, after)
  | faulted (fault : Fault) (after : σ) : Unrefused holds (.error (.faulted fault), after)

theorem Unrefused.mono {holds weaker : β → σ → Prop} {finished : Except (Failure α) β × σ}
    (unrefused : Unrefused holds finished)
    (implies : ∀ value after, holds value after → weaker value after) :
    Unrefused weaker finished := by
  cases unrefused with
  | ok given => exact .ok (implies _ _ given)
  | faulted fault after => exact .faulted fault after

section Meeting

variable {first : ExceptT (Failure α) (StateT σ (Collective α)) β}
  {next : β → ExceptT (Failure α) (StateT σ (Collective α)) γ} {before : σ}
  {good : Except (Failure α) β × σ → Prop} {good' : Except (Failure α) γ × σ → Prop}
  {holds : β → σ → Prop} {holds' : γ → σ → Prop}

theorem always_meet (always : (first before).Always good)
    (fails : ∀ failure after, good (.error failure, after) → good' (.error failure, after))
    (rest : ∀ value after, good (.ok value, after) → (next value after).Always good') :
    ((first >>= next) before).Always good' := by
  rw [meet_bind]
  refine always.bind ?_
  rintro ⟨value | failure, after⟩ given
  · exact .done (fails _ _ given)
  · exact rest _ _ given

theorem unrefused_meet (always : (first before).Always (Unrefused holds))
    (rest : ∀ value after, holds value after → (next value after).Always (Unrefused holds')) :
    ((first >>= next) before).Always (Unrefused holds') := by
  refine always_meet always ?_ ?_
  · rintro _ _ ⟨⟩
    exact .faulted _ _
  · rintro value after ⟨given⟩
    exact rest value after given

end Meeting

theorem unrefused_lift {program : Collective α β} {good : β → Prop} (always : program.Always good)
    (before : σ) : ((liftM program : ExceptT (Failure α) (StateT σ (Collective α)) β) before).Always
      (Unrefused fun answer after => good answer ∧ after = before) := by
  have paired : (program.bind fun answer => .done (answer, before)).Always
      fun passed => good passed.1 ∧ passed.2 = before :=
    always.bind fun _ given => .done ⟨given, rfl⟩
  exact paired.bind fun _ given => .done (.ok given)

def Device.SameShape (before after : Device α) : Prop :=
  after.width = before.width ∧ after.sizes = before.sizes

theorem Halo.always_sync (halo : Halo) (values : Array α) (ownedRows : Nat) :
    (halo.sync values ownedRows).Always fun answer => answer.2.size = values.size := by
  by_cases long : ownedRows * halo.blockSize ≤ values.size
  · have whole : ∀ ghost : Array α,
        ghost.size = (values.extract (ownedRows * halo.blockSize) values.size).size →
        (values.extract 0 (ownedRows * halo.blockSize) ++ ghost).size = values.size := by
      intro ghost size
      rw [Array.size_append, size, Array.size_extract, Array.size_extract]
      omega
    cases group : halo.communicator with
    | alone =>
        unfold sync
        dsimp only
        rw [if_neg (Nat.not_lt.mpr long), group]
        exact .done (whole _ rfl)
    | member rank ranks =>
        rw [sync_member group long]
        exact .exchange fun answer size => .done (whole _ size)
  · unfold sync
    dsimp only
    rw [if_pos (Nat.lt_of_not_le long)]
    exact .done rfl

namespace Matrix

theorem unrefused_refresh (matrix : Matrix α) (input : Buffer) (device : Device α) :
    (matrix.refresh input device).Always (Unrefused fun _ => device.SameShape) := by
  unfold refresh
  cases matrix.halo with
  | none => exact .done (.ok ⟨rfl, rfl⟩)
  | some halo =>
      change (((liftM (halo.sync (device.contents input) matrix.rows) :
        Operation α (Except Fault Unit × Array α)) >>= _) device).Always _
      refine unrefused_meet (unrefused_lift (halo.always_sync _ _) device) ?_
      rintro ⟨outcome, values⟩ _ ⟨size, rfl⟩
      cases outcome with
      | ok => exact .done (.ok ⟨rfl, Device.sizes_store size⟩)
      | error fault => exact .done (.faulted fault _)

variable [Arithmetic α]

theorem unrefused_multiply (matrix : Matrix α) (input output : Buffer) (device : Device α) :
    Unrefused (fun _ => device.SameShape) (matrix.multiply input output device) := by
  unfold multiply Device.countDispatch
  rw [modify_bind, get_bind]
  generalize counted : device.count _ = later
  have same : device.SameShape later := by
    subst counted
    exact ⟨rfl, rfl⟩
  have size := matrix.size_off_diagonal_product (later.contents input) (later.contents output)
  generalize matrix.offDiagonalProduct _ _ = answer at size ⊢
  obtain ⟨outcome, values⟩ := answer
  cases outcome with
  | ok => exact .ok ⟨same.1, (Device.sizes_store size).trans same.2⟩
  | error fault => exact .faulted fault _

theorem unrefused_apply (matrix : Matrix α) {input output : Buffer} {device : Device α}
    (different : output ≠ input)
    (long : matrix.columns * matrix.blockSize ≤ (device.contents input).size)
    (fits : matrix.rows * matrix.blockSize ≤ (device.contents output).size) :
    (matrix.applyOffDiagonal input output device).Always (Unrefused fun _ => device.SameShape) := by
  rw [matrix.apply_off_diagonal_run different long fits]
  refine unrefused_meet (matrix.unrefused_refresh input device) fun _ after ⟨width, sizes⟩ => ?_
  exact .done ((matrix.unrefused_multiply input output after).mono fun _ _ given =>
    ⟨given.1.trans width, given.2.trans sizes⟩)

end Matrix

namespace SolveM

theorem unrefused_on_device {operation : Operation α β} {scope : SolveScope α μ}
    {holds : β → Device α → Prop} (always : (operation scope.device).Always (Unrefused holds)) :
    ((onDevice operation : SolveM α μ β) scope).Always
      (Unrefused fun value after => holds value after.device) := by
  refine always.bind ?_
  rintro _ (given | ⟨fault, after⟩)
  · exact .done (.ok given)
  · exact .done (.faulted fault _)

end SolveM

namespace Solver

section Loop

variable [Arithmetic α] {matrix : Matrix α} {sweep : Sweep} {device after : Device α}

omit [Arithmetic α] in
theorem Provided.of_shape (provided : Provided matrix sweep device)
    (same : device.SameShape after) : Provided matrix sweep after where
  rows := provided.rows
  blockSize := provided.blockSize
  separate := provided.separate
  ready := provided.ready.of_sizes same.1 same.2
  extended := Device.size_contents_of_sizes same.2 sweep.previous ▸ provided.extended

omit [Arithmetic α] in
theorem Provided.iterate_long (provided : Provided matrix sweep device) :
    matrix.rows * matrix.blockSize ≤ (device.contents sweep.iterate).size := by
  have ready := provided.ready
  rw [provided.rows, provided.blockSize]
  exact (Device.fits_of_long_enough ready.positive ready.small ready.width ready.long).1.iterateLong

variable [SquareRoot α] {solver : Solver α} {launcher : Launcher} {scope : SolveScope α μ}

theorem unrefused_sweep (solver : Solver α) (provided : Provided matrix sweep scope.device)
    (serves : Launcher.Serves sweep launcher) :
    (solver.sweepOnce matrix sweep launcher scope).Always (Unrefused fun answer last =>
      Provided matrix sweep last.device ∧ Launcher.Serves sweep answer.2) := by
  unfold sweepOnce
  refine unrefused_meet (SolveM.unrefused_on_device (matrix.unrefused_apply
    provided.separate.apart.written.1 provided.extended provided.iterate_long)) ?_
  intro _ applied shape
  have provided' := provided.of_shape shape
  obtain ⟨next, launched, issued, serves', sweeps⟩ :=
    serves.issue_run provided'.separate provided'.ready
  rw [meet_of_done (SolveM.issue_run issued)]
  obtain ⟨last, read, alike⟩ : ∃ last, (Device.readScalar sweep.residual : DeviceM α α) launched =
      (.ok ((launched.contents sweep.residual)[0]?.getD 0), last) ∧ last.Alike launched :=
    ⟨_, rfl, rfl, rfl⟩
  rw [meet_of_done (SolveM.call_run read)]
  refine unrefused_meet (unrefused_lift (always_anything _) _) ?_
  rintro total _ ⟨_, rfl⟩
  refine .done (.ok ⟨(provided'.of_shape ⟨sweeps.width, sweeps.sizes⟩).of_shape ⟨alike.width, ?_⟩, serves'⟩)
  rw [Device.sizes, Device.sizes, alike.buffers]

theorem unrefused_iterate (policy : Policy α μ) (origin : ScratchOrigin) (remaining : Nat)
    (progress : Progress α) (history : Array α) (provided : Provided matrix sweep scope.device)
    (serves : Launcher.Serves sweep launcher) :
    (solver.iterate matrix policy sweep origin remaining launcher progress history scope).Always
      (Unrefused fun _ _ => True) := by
  -- the induction is on what the iteration counter can still count
  induction remaining generalizing launcher progress history scope with
  | zero => exact .done (.faulted .overflow scope)
  | succ remaining ih =>
      rw [iterate_succ]
      refine unrefused_meet (unrefused_sweep solver provided serves) ?_
      rintro ⟨residual, next⟩ swept ⟨provided', serves'⟩
      obtain ⟨asked, alike, _, judged⟩ := solver.judge_run matrix policy sweep origin remaining
        next progress history residual swept
      rw [judged]
      split
      · exact .done (.ok trivial)
      · refine ih _ _ (provided'.of_shape ⟨alike.width, ?_⟩) serves'
        rw [Device.sizes, Device.sizes, alike.buffers]

end Loop
end Solver

def Device.launches (device : Device α) : Counters :=
  { device.counters with readbacks := 0 }

structure SolveScope.Intact (before after : SolveScope α μ) : Prop where
  contents : ∀ buffer, before.device.Holds buffer →
    after.device.contents buffer = before.device.contents buffer
  launches : after.device.launches = before.device.launches
  statistics : after.statistics = before.statistics
  memory : after.memory = before.memory

theorem SolveScope.Intact.trans {first second third : SolveScope α μ} (early : Intact first second)
    (late : Intact second third) (kept : ∀ buffer, first.device.Holds buffer →
      second.device.Holds buffer) : Intact first third where
  contents buffer held := (late.contents buffer (kept buffer held)).trans (early.contents buffer held)
  launches := late.launches.trans early.launches
  statistics := late.statistics.trans early.statistics
  memory := late.memory.trans early.memory

def Atomic (before : SolveScope α μ) (finished : Except (Failure α) β × SolveScope α μ) : Prop :=
  ∀ refusal, finished.1 = .error (.refused refusal) → before.Intact finished.2

theorem Unrefused.atomic {before : SolveScope α μ} {holds : β → SolveScope α μ → Prop}
    {finished : Except (Failure α) β × SolveScope α μ} (unrefused : Unrefused holds finished) :
    Atomic before finished := by
  cases unrefused <;> exact fun _ refused => nomatch refused

namespace Device

theorem copy_refused {device : Device α} {source target : Buffer} {length : Nat}
    (different : source ≠ target) (short : (device.contents target).size < length) :
    (copy source target length : DeviceM α Unit) device =
      (.error (.refused (.copyRange length)), device) := by
  unfold copy
  rw [if_neg different, get_bind, get_bind, if_pos (.inr short)]
  rfl

end Device

namespace Solver

variable [Arithmetic α] {solver : Solver α} {matrix : Matrix α} {request : Request α}

theorem scratch_leaves (auxiliary : Option Buffer) (needed : Nat) :
    Leaves (fun scope : SolveScope α μ => scope.device.launches)
      (scratch auxiliary needed : SolveM α μ (Buffer × ScratchOrigin)) := by
  have allocated : Leaves (fun scope : SolveScope α μ => scope.device.launches)
      (do pure (← SolveM.call (Device.alloc needed), ScratchOrigin.allocated)) := by
    have kept : Device.Keeps Device.launches (Device.alloc needed : DeviceM α Buffer) := fun _ => rfl
    exact ((SolveM.leaves_call kept).map Prod.fst).ofBind fun _ _ _ _ => .ofPure _
  unfold scratch
  cases auxiliary with
  | none => exact allocated
  | some buffer =>
      refine .ofGet fun scope => .ofIte (.ofPure _) (Leaves.ofBind ?_ fun _ _ _ _ => allocated)
      exact .ofModify fun _ => rfl

variable [SquareRoot α]

/-- A solve past its checks goes into its loop, or the copy of the start vector is refused. So
short is only the scratch of a matrix with fewer columns than rows. -/
inductive Relaxes (solver : Solver α) (matrix : Matrix α) (request : Request α)
    (policy : Policy α μ) (before : SolveScope α μ) :
    Collective α (Except (Failure α) (Outcome α) × SolveScope α μ) → Prop where
  | looped {sweep : Sweep} {origin : ScratchOrigin} {entry : Device α}
      (provided : Provided matrix sweep entry)
      (begun : matrix.Sound → Begun solver matrix request before.device sweep entry)
      (supplied : Supplied request.auxiliary (matrix.columns * solver.kernel.blockSize)
        before.device sweep.previous origin) :
      Relaxes solver matrix request policy before (solver.loop matrix request policy sweep origin
        (.ofMode solver.config.launch) { before with device := entry })
  | cramped {first : Device α} (narrow : matrix.columns < matrix.rows)
      (grown : Device.Extends before.device first)
      (quiet : first.launches = before.device.launches) :
      Relaxes solver matrix request policy before
        (.done (.error (.refused (.copyRange solver.owned)), { before with device := first }))

theorem relax_relaxes (policy : Policy α μ) (scope : SolveScope α μ)
    (furnished : Furnished solver scope.device) (lent : Lent solver request scope.device)
    (rows : matrix.rows = solver.rows) (blockSize : matrix.blockSize = solver.kernel.blockSize) :
    Relaxes solver matrix request policy scope
      (solver.relax matrix request policy scope) := by
  obtain ⟨previous, origin, first, ran, scratched, supplied⟩ :=
    scratched_run matrix scope furnished lent
  have quiet : first.launches = scope.device.launches :=
    scratch_leaves request.auxiliary _ scope _ { scope with device := first }
      (by rw [ran]; exact .done _)
  unfold relax
  rw [meet_of_done ran]
  dsimp only
  by_cases room : solver.owned ≤ (first.contents previous).size
  · obtain ⟨second, moved, copied⟩ := scratched.copied lent room
    obtain ⟨sweep, after, prepared, same, provided, begun⟩ := Copied.prepares
      { scope with device := second } copied furnished lent rows blockSize
    rw [meet_of_done (SolveM.call_run moved), meet_of_done prepared]
    exact .looped provided begun (same ▸ supplied)
  · have different : request.iterate ≠ previous := fun same =>
      scratched.apart (same ▸ List.mem_cons_self)
    have refused := Device.copy_refused different (Nat.lt_of_not_le room)
    rw [meet_bind, SolveM.call_run refused]
    refine .cramped (Nat.lt_of_not_le fun covers => room ?_) scratched.grown quiet
    refine Nat.le_trans ?_ scratched.long
    rw [owned, ← rows]
    exact Nat.mul_le_mul_right _ covers

theorem relax_atomic (policy : Policy α μ) (scope : SolveScope α μ)
    (furnished : Furnished solver scope.device) (lent : Lent solver request scope.device)
    (rows : matrix.rows = solver.rows) (blockSize : matrix.blockSize = solver.kernel.blockSize) :
    (solver.relax matrix request policy scope).Always (Atomic scope) := by
  have relaxes := relax_relaxes policy scope furnished lent rows blockSize
  generalize solver.relax matrix request policy scope = program at relaxes ⊢
  cases relaxes with
  | looped provided =>
      exact (unrefused_iterate policy _ _ _ _ provided (Launcher.serves_of_mode ..)).mono
        fun _ unrefused => unrefused.atomic
  | cramped _ grown quiet => exact .done fun _ _ => ⟨grown.contents, quiet, rfl, rfl⟩

end Solver

def Request.buffers (request : Request α) : List Buffer :=
  request.rhs :: request.iterate :: request.auxiliary.toList

namespace Solver

variable [Arithmetic α] {solver : Solver α} {matrix : Matrix α} {request : Request α}

omit [Arithmetic α] in
theorem lent_of_validate {device : Device α}
    (checked : solver.validate matrix request device = .ok ())
    (foreign : ∀ buffer ∈ request.buffers, device.Holds buffer ∧
      buffer ∉ [solver.diagonal, solver.inverse]) : Lent solver request device := by
  obtain ⟨_, rhsLong, iterateLong, different, auxiliary⟩ := validate_ok_iff.mp checked
  obtain ⟨rhsHeld, _⟩ := foreign request.rhs (by simp [Request.buffers])
  obtain ⟨iterateHeld, iterateForeign⟩ := foreign request.iterate (by simp [Request.buffers])
  refine ⟨rhsHeld, iterateHeld, rhsLong, iterateLong, ?_, fun buffer given => ?_⟩
  · simp only [List.mem_cons, List.not_mem_nil, or_false, not_or] at iterateForeign ⊢
    exact ⟨iterateForeign.1, iterateForeign.2, Ne.symm different⟩
  · have listed : buffer ∈ request.buffers := by
      simp [Request.buffers, Option.mem_toList.mpr given]
    obtain ⟨held, apart⟩ := foreign buffer listed
    obtain ⟨notIterate, notRhs⟩ := auxiliary buffer given
    simp only [List.mem_cons, List.not_mem_nil, or_false, not_or] at apart ⊢
    exact ⟨held, notIterate, apart.1, apart.2, notRhs⟩

variable [SquareRoot α]

theorem solve_atomic (policy : Policy α μ) (scope : SolveScope α μ)
    (furnished : Furnished solver scope.device)
    (foreign : ∀ buffer ∈ request.buffers, scope.device.Holds buffer ∧
      buffer ∉ [solver.diagonal, solver.inverse]) :
    (solver.solve matrix request policy scope).Always (Atomic scope) := by
  have alike := solver.announced_alike scope
  have launches : (solver.announced scope).device.launches = scope.device.launches := rfl
  have intact : scope.Intact (solver.announced scope) :=
    ⟨fun buffer _ => alike.contents buffer, launches, rfl, rfl⟩
  cases checked : solver.validate matrix request scope.device with
  | error refusal =>
      rw [solve_refused policy checked]
      exact .done fun _ _ => intact
  | ok =>
      rw [solve_passed policy checked]
      have grown := Device.Extends.of_alike alike
      have lent := (lent_of_validate checked foreign).of_extends grown
      obtain ⟨⟨rows, blockSize⟩, _⟩ := validate_ok_iff.mp checked
      have unread : Device.Unread fun device : Device α =>
          ((device.width, device.buffers), device.launches) := fun _ => rfl
      -- the question whether there is anything to do changes none of these
      have looked : ((solver.endsAtOnce request : SolveM α μ Bool)
          (solver.announced scope)).Always fun finished =>
            finished.2.device.Alike (solver.announced scope).device ∧ scope.Intact finished.2 := by
        apply Always.of_ends
        rintro ⟨result, after⟩ ends
        have kept := ends_at_once_leaves unread solver request _ _ _ ends
        simp only [Prod.mk.injEq] at kept
        obtain ⟨⟨⟨width, buffers⟩, launches'⟩, statistics, memory⟩ := kept
        have same : after.device.Alike (solver.announced scope).device := ⟨width, buffers⟩
        exact ⟨same, fun buffer _ => (same.contents buffer).trans (alike.contents buffer),
          launches'.trans launches, statistics, memory⟩
      refine always_meet looked (fun _ _ given _ _ => given.2) ?_
      rintro now after ⟨same, unchanged⟩
      have grown' := Device.Extends.of_alike same
      cases now with
      | true =>
          obtain ⟨_, _, ended⟩ := conclude_at_once solver matrix request policy after
          rw [ended]
          exact .done fun _ refused => nomatch refused
      | false =>
          refine (relax_atomic policy after (furnished.of_extends (grown.trans grown'))
            (lent.of_extends grown') rows blockSize).mono fun _ atomic refusal refused => ?_
          exact unchanged.trans (atomic refusal refused) fun _ held => (grown.trans grown').holds held

/-- A solver that some setup has answered with, and the device it has left. -/
inductive SetUp (solver : Solver α) (made : Device α) : Prop where
  | factored {name : String} {matrix : Matrix α} {config : Config α} {bare : Device α}
      (ran : setup name matrix config bare = (.ok solver, made))
  | given {name : String} {matrix : Matrix α} {config : Config α} {inverse : InverseDiagonal α}
      {bare : Device α} (ran : setupWithInverse name matrix config inverse bare = (.ok solver, made))

omit [SquareRoot α] in
theorem SetUp.furnished {made : Device α} (setUp : SetUp solver made) : Furnished solver made := by
  cases setUp with
  | given ran => exact furnished_of_setup ran
  | @factored name matrix config bare ran =>
      unfold setup at ran
      cases range : (checkBlockSize matrix.blockSize : Except (Refusal α) Unit) with
      | error refusal =>
          rw [range] at ran
          cases ran
      | ok =>
          cases found : InverseDiagonal.factorize matrix.diagonal matrix.blockSize with
          | error refusal =>
              rw [range, found] at ran
              cases ran
          | ok inverse =>
              rw [range, found] at ran
              exact furnished_of_setup ran

omit [Arithmetic α] [SquareRoot α] in
theorem Furnished.of_kept {made device : Device α} (furnished : Furnished solver made)
    (communicator : Communicator)
    (kept : ∀ buffer ∈ [solver.diagonal, solver.inverse], device.Holds buffer ∧
      device.contents buffer = made.contents buffer) :
    Furnished (solver.withCommunicator communicator) device := by
  obtain ⟨positive, small, _, _, diagonalLong, inverseLong⟩ := furnished
  obtain ⟨diagonalHeld, diagonal⟩ := kept solver.diagonal (by simp)
  obtain ⟨inverseHeld, inverse⟩ := kept solver.inverse (by simp)
  exact ⟨positive, small, diagonalHeld, inverseHeld, diagonal ▸ diagonalLong,
    inverse ▸ inverseLong⟩

/-- A solve that is refused leaves every buffer as it was, however its request's buffers
overlap and whatever its matrix holds. No launch has then been made, so that the first product
is already behind every check. -/
theorem refused_solve_changes_nothing {made : Device α} (setUp : SetUp solver made)
    (communicator : Communicator) (matrix : Matrix α) (policy : Policy α μ)
    (scope : SolveScope α μ)
    (kept : ∀ buffer ∈ [solver.diagonal, solver.inverse], scope.device.Holds buffer ∧
      scope.device.contents buffer = made.contents buffer)
    (foreign : ∀ buffer ∈ request.buffers, scope.device.Holds buffer ∧
      buffer ∉ [solver.diagonal, solver.inverse]) :
    ((solver.withCommunicator communicator).solve matrix request policy scope).Always
      fun finished => ∀ refusal, finished.1 = .error (.refused refusal) → scope.Intact finished.2 := by
  exact solve_atomic policy scope (setUp.furnished.of_kept communicator kept) foreign

def twoRows : Matrix ℚ :=
  ⟨2, 2, 1, #[1, 1], #[], #[], #[0, 0, 0], none⟩

def twoRowsSolver : Solver ℚ :=
  ⟨"rows", .standard, .scalar, 2, ⟨0⟩, ⟨1⟩, .alone, Statistics.recordSetup {} 0⟩

def twoRowsDevice : Device ℚ :=
  ⟨.narrowest, #[#[1, 1], #[1, 1], #[3, 4], #[5, 6]], {}, #[]⟩

/-- The matrix comes back with a column less, which no check of a solve looks at. -/
def narrowSolve : Collective ℚ (Except (Failure ℚ) (Outcome ℚ) × SolveScope ℚ (Option (Best ℚ))) :=
  @solve ℚ _ _ ⟨id⟩ twoRowsSolver { twoRows with columns := 1 } ⟨⟨2⟩, ⟨3⟩, 1, none⟩
    (.residual none) ⟨twoRowsDevice, {}, none⟩

theorem narrow_matrix_refused : ∃ made last, SetUp twoRowsSolver made ∧
    narrowSolve = .done (.error (.refused (.copyRange 2)), last) ∧
    SolveScope.Intact ⟨twoRowsDevice, {}, none⟩ last := by
  obtain ⟨made, ran, kept⟩ : ∃ made, setupWithInverse "rows" twoRows .standard
      (.reciprocals #[1, 1]) (Device.create .narrowest) = (.ok twoRowsSolver, made) ∧
      ∀ buffer ∈ [twoRowsSolver.diagonal, twoRowsSolver.inverse], twoRowsDevice.Holds buffer ∧
        twoRowsDevice.contents buffer = made.contents buffer := by
    refine ⟨_, rfl, fun buffer listed => ?_⟩
    simp only [twoRowsSolver, List.mem_cons, List.not_mem_nil, or_false] at listed
    rcases listed with rfl | rfl <;> exact ⟨by decide, rfl⟩
  have setUp : SetUp twoRowsSolver made := .given ran
  obtain ⟨last, refused⟩ : ∃ last, narrowSolve = .done (.error (.refused (.copyRange 2)), last) :=
    Collective.done_of_refusal (by decide +kernel)
  have atomic := @refused_solve_changes_nothing ℚ _ _ twoRowsSolver ⟨⟨2⟩, ⟨3⟩, 1, none⟩ ⟨id⟩ made
    setUp .alone { twoRows with columns := 1 } (.residual none) ⟨twoRowsDevice, {}, none⟩ kept
    (by decide)
  change narrowSolve.Always _ at atomic
  rw [refused] at atomic
  exact ⟨made, last, setUp, refused, atomic.holds _ rfl⟩

end Solver
end Relaxation

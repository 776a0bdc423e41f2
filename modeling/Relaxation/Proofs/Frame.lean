import Relaxation.Proofs.Run

/-!
What a solve leaves alone. It writes to its iterate, to its scratch and to buffers that it
has allocated; any other buffer of the device holds what it held, however the solve ends.
-/

namespace Relaxation

variable {α β γ δ ζ μ σ : Type}

open Collective

/-- However the program ends, it does not change what `view` shows of its state. -/
def Leaves (view : σ → δ) (program : ExceptT (Failure α) (StateT σ (Collective α)) β) : Prop :=
  ∀ before result after, (program before).Ends (result, after) → view after = view before

namespace Leaves

variable {view : σ → δ} {program : ExceptT (Failure α) (StateT σ (Collective α)) β}

theorem map (leaves : Leaves view program) (part : δ → ζ) :
    Leaves (fun state => part (view state)) program :=
  fun before result after ends => congrArg part (leaves before result after ends)

theorem ofBind {first : ExceptT (Failure α) (StateT σ (Collective α)) β}
    {next : β → ExceptT (Failure α) (StateT σ (Collective α)) γ} (leaves : Leaves view first)
    (later : ∀ before result after, (first before).Ends (.ok result, after) →
      Leaves view (next result)) : Leaves view (first >>= next) := by
  intro before result after ends
  obtain ⟨failure, failed, rfl⟩ | ⟨between, middle, reached, rest⟩ := meet_ends ends
  · exact leaves before _ after failed
  · exact (later before between middle reached middle result after rest).trans
      (leaves before _ middle reached)

theorem ofPure (result : β) :
    Leaves view (pure result : ExceptT (Failure α) (StateT σ (Collective α)) β) := by
  intro before answer after ends
  cases ends_done_iff.mp ends
  rfl

theorem ofThrow (failure : Failure α) :
    Leaves view (throw failure : ExceptT (Failure α) (StateT σ (Collective α)) β) := by
  intro before answer after ends
  cases ends_done_iff.mp ends
  rfl

theorem ofModify {change : σ → σ} (unchanged : ∀ state, view (change state) = view state) :
    Leaves view (modify change : ExceptT (Failure α) (StateT σ (Collective α)) PUnit) := by
  intro before answer after ends
  cases ends_done_iff.mp ends
  exact unchanged before

theorem ofCollective (program : Collective α β) :
    Leaves view (liftM program : ExceptT (Failure α) (StateT σ (Collective α)) β) := by
  intro before result after ends
  obtain ⟨_, _, _, rfl⟩ := lift_ends ends
  rfl

theorem ofIte {p : Prop} [Decidable p]
    {first second : ExceptT (Failure α) (StateT σ (Collective α)) β} (holds : Leaves view first)
    (fails : Leaves view second) : Leaves view (if p then first else second) := by
  by_cases hit : p
  · simpa only [hit, if_true] using holds
  · simpa only [hit, if_false] using fails

theorem ofGet {next : σ → ExceptT (Failure α) (StateT σ (Collective α)) γ}
    (reads : ∀ state, Leaves view (next state)) : Leaves view (get >>= next) :=
  fun before result after ends => reads before before result after ends

end Leaves

namespace Device

variable {view : Device α → δ}

/-- A view that does not show how often the device was read. -/
def Unread (view : Device α → δ) : Prop :=
  ∀ device : Device α, view (device.count fun counters =>
    { counters with readbacks := counters.readbacks + 1 }) = view device

theorem keeps_download {buffer : Buffer} {length : Nat} (unread : Unread view) :
    Keeps view (download buffer length : DeviceM α (Array α)) := by
  refine Keeps.ofBind (.ofModify unread) fun _ => .ofGet fun device => ?_
  change view ((if _ then _ else _ : DeviceM α (Array α)) device).2 = _
  split <;> rfl

theorem keeps_copy {source target : Buffer} {length : Nat}
    (stored : ∀ (device : Device α) values, view (device.store target values) = view device) :
    Keeps view (copy source target length : DeviceM α Unit) := by
  intro device
  unfold copy
  split
  · rfl
  · rw [get_bind, get_bind]
    split
    · rfl
    · exact stored device _

variable [Arithmetic α] {sweep : Sweep} {buffer : Buffer}

def written (sweep : Sweep) : List Buffer :=
  [sweep.iterate, sweep.previous, sweep.partials, sweep.residual]

theorem keeps_one_by_one (apart : buffer ∉ written sweep) :
    Keeps (fun device : Device α => device.contents buffer) (Launcher.oneByOne sweep) := by
  simp only [written, List.mem_cons, List.not_mem_nil, or_false, not_or] at apart
  obtain ⟨iterate, previous, partials, residual⟩ := apart
  refine Keeps.ofBind (Keeps.ofBind (.ofModify fun _ => rfl) fun _ =>
    keeps_run_relax sweep fun device workspace => ?_) fun _ =>
      Keeps.ofBind (.ofModify fun _ => rfl) fun _ => keeps_run_reduce sweep fun device values => ?_
  · dsimp only [restore]
    rw [contents_store_other _ (Ne.symm partials), contents_store_other _ (Ne.symm previous),
      contents_store_other _ (Ne.symm iterate)]
  · exact contents_store_other _ (Ne.symm residual) values

end Device

theorem Operation.leaves_call {view : Device α → δ} {call : DeviceM α β} (keeps : Device.Keeps view call) :
    Leaves view (Operation.call call) := by
  intro before result after ends
  have ran := Prod.ext_iff.mp (ends_done_iff.mp ends)
  rw [show after = (call before).2 from ran.2]
  exact keeps before

namespace Matrix

variable {matrix : Matrix α} {input output buffer : Buffer}

theorem leaves_refresh {view : Device α → δ}
    (stored : ∀ (device : Device α) values, view (device.store input values) = view device) :
    Leaves view (matrix.refresh input) := by
  unfold refresh
  cases matrix.halo with
  | none => exact .ofPure ()
  | some halo =>
      refine .ofGet fun device => (Leaves.ofCollective _).ofBind fun _ answer _ _ => ?_
      refine (Leaves.ofModify fun state => ?_).ofBind fun _ _ _ _ => ?_
      · exact stored state _
      · cases answer.1 with
        | ok => exact .ofPure ()
        | error fault => exact .ofThrow _

theorem leaves_apply_off_diagonal [Arithmetic α] (input' : buffer ≠ input)
    (output' : buffer ≠ output) :
    Leaves (fun device : Device α => device.contents buffer)
      (matrix.applyOffDiagonal input output) := by
  have product : Device.Keeps (fun device : Device α => device.contents buffer)
      (matrix.multiply input output) := by
    intro device
    unfold multiply Device.countDispatch
    rw [modify_bind, get_bind]
    generalize matrix.offDiagonalProduct _ _ = answer
    obtain ⟨outcome | fault, values⟩ := answer <;>
      exact Device.contents_store_other _ (Ne.symm output') values
  have applied : Leaves (fun device : Device α => device.contents buffer)
      (do matrix.refresh input; Operation.call (matrix.multiply input output)) :=
    (leaves_refresh fun device _ => Device.contents_store_other device (Ne.symm input') _).ofBind
      fun _ _ _ _ => Operation.leaves_call product
  refine (Operation.leaves_call (Device.keeps_claim _ _ _)).ofBind fun _ _ _ _ => .ofGet fun device => ?_
  exact .ofIte ((Leaves.ofThrow (β := PUnit) _).ofBind fun _ _ _ _ => applied) applied

end Matrix

namespace SolveM

variable {view : Device α → δ}

theorem leaves_on_device {operation : Operation α β} (leaves : Leaves view operation) :
    Leaves (fun scope : SolveScope α μ => (view scope.device, scope.statistics, scope.memory))
      (onDevice operation) := by
  intro before result after ends
  obtain ⟨⟨_, device⟩, reached, rest⟩ := ends_bind_iff.mp ends
  cases ends_done_iff.mp rest
  exact congrArg (fun shown => (shown, before.statistics, before.memory))
    (leaves before.device _ device reached)

theorem leaves_call {call : DeviceM α β} (keeps : Device.Keeps view call) :
    Leaves (fun scope : SolveScope α μ => (view scope.device, scope.statistics, scope.memory))
      (SolveM.call call) :=
  leaves_on_device (Operation.leaves_call keeps)

end SolveM

namespace Solver

variable [Arithmetic α] [SquareRoot α] {solver : Solver α} {matrix : Matrix α} {policy : Policy α μ}
  {request : Request α} {sweep : Sweep} {origin : ScratchOrigin} {scope : SolveScope α μ}
  {buffer : Buffer}

theorem sweep_once_leaves (solver : Solver α) (matrix : Matrix α)
    (apart : buffer ∉ Device.written sweep) :
    Leaves (fun scope : SolveScope α μ => scope.device.contents buffer)
        (solver.sweepOnce matrix sweep .direct) ∧
      ∀ (before : SolveScope α μ) residual launcher after,
        (solver.sweepOnce matrix sweep .direct before).Ends (.ok (residual, launcher), after) →
          launcher = .direct := by
  have issued : ∀ (before : SolveScope α μ) result after,
      ((SolveM.issue .direct sweep : SolveM α μ Launcher) before).Ends (result, after) →
        after.device = (Launcher.oneByOne sweep before.device).2 ∧
          ∀ launcher, result = .ok launcher → launcher = .direct := by
    intro before result after ends
    unfold SolveM.issue at ends
    rw [Launcher.issue_direct] at ends
    cases ends_done_iff.mp ends
    refine ⟨rfl, fun launcher answered => ?_⟩
    generalize (Launcher.oneByOne sweep before.device).1 = outcome at answered
    cases outcome with
    | ok => cases answered; rfl
    | error failure => cases answered
  constructor
  · have apart' := apart
    simp only [Device.written, List.mem_cons, List.not_mem_nil, or_false, not_or] at apart'
    refine ((SolveM.leaves_on_device
      (Matrix.leaves_apply_off_diagonal apart'.2.1 apart'.1)).map Prod.fst).ofBind fun _ _ _ _ => ?_
    refine Leaves.ofBind (fun before result after ends => ?_) fun _ launcher _ _ => ?_
    · rw [(issued before result after ends).1]
      exact Device.keeps_one_by_one apart before.device
    · have read : Device.Keeps (fun device : Device α => device.contents buffer)
          (Device.readScalar sweep.residual) :=
        Device.Keeps.ofBind (.ofModify fun _ => rfl) fun _ => .ofGet fun _ => rfl
      exact ((SolveM.leaves_call read).map Prod.fst).ofBind fun _ _ _ _ =>
        (Leaves.ofCollective _).ofBind fun _ _ _ _ => .ofPure _
  · intro before residual launcher after ends
    obtain ⟨_, _, _, ends⟩ := meet_answers ends
    obtain ⟨next, middle, launched, ends⟩ := meet_answers ends
    obtain ⟨_, _, _, ends⟩ := meet_answers ends
    obtain ⟨_, _, _, ends⟩ := meet_answers ends
    cases ends_done_iff.mp ends
    exact (issued _ _ _ launched).2 _ rfl

theorem iterate_leaves (apart : buffer ∉ Device.written sweep) (remaining : Nat)
    (progress : Progress α) (history : Array α) :
    Leaves (fun scope : SolveScope α μ => scope.device.contents buffer)
      (solver.iterate matrix policy sweep origin remaining .direct progress history) := by
  -- the induction is on what the iteration counter can still count
  induction remaining generalizing progress history with
  | zero => exact .ofThrow _
  | succ remaining ih =>
      obtain ⟨leaves, direct⟩ := @sweep_once_leaves α μ _ _ sweep buffer solver matrix apart
      rw [iterate_succ]
      refine leaves.ofBind fun before answer after swept => ?_
      obtain ⟨residual, launcher⟩ := answer
      cases direct before residual launcher after swept
      intro before result last ends
      obtain ⟨asked, alike, _, shape⟩ := solver.judge_run matrix policy sweep origin remaining
        .direct progress history residual before
      rw [shape] at ends
      split at ends
      · cases ends_done_iff.mp ends
        exact alike.contents buffer
      · exact (ih _ _ asked result last ends).trans (alike.contents buffer)

theorem ends_at_once_leaves {view : Device α → δ} (unread : Device.Unread view) (solver : Solver α)
    (request : Request α) :
    Leaves (fun scope : SolveScope α μ => (view scope.device, scope.statistics, scope.memory))
      (solver.endsAtOnce request : SolveM α μ Bool) := by
  refine .ofIte (Leaves.ofBind ?_ fun _ _ _ _ => .ofPure _) (.ofPure _)
  refine (SolveM.leaves_call (Device.keeps_download unread)).ofBind fun _ _ _ _ => ?_
  exact (Leaves.ofCollective _).ofBind fun _ _ _ _ => .ofPure _

section Held

variable (apart : buffer ≠ request.iterate)
  (spared : buffer ∈ request.auxiliary →
    (scope.device.contents buffer).size < matrix.columns * solver.kernel.blockSize)
  (lent : ∀ auxiliary ∈ request.auxiliary, scope.device.Holds auxiliary)
  {result : Except (Failure α) (Outcome α)} {last : SolveScope α μ}

include apart spared lent

theorem relax_leaves (held : scope.device.Holds buffer) (direct : solver.config.launch = .direct)
    (ends : (solver.relax matrix request policy scope).Ends (result, last)) :
    last.device.contents buffer = scope.device.contents buffer := by
  obtain ⟨previous, origin, first, scratched, grown, _, _, comes⟩ := scratch_run request.auxiliary
    (matrix.columns * solver.kernel.blockSize) scope lent
  have elsewhere : buffer ≠ previous := comes.apart held spared
  unfold relax at ends
  rw [meet_of_done scratched] at ends
  dsimp only at ends
  have copies : Leaves (fun scope : SolveScope α μ =>
      (scope.device.contents buffer, scope.device.buffers.size))
      (SolveM.call (Device.copy request.iterate previous solver.owned)) :=
    (SolveM.leaves_call (show Device.Keeps
        (fun device : Device α => (device.contents buffer, device.buffers.size)) _
      from Device.keeps_copy fun device values => by
        rw [Device.contents_store_other _ (Ne.symm elsewhere)]
        simp [Device.store])).map Prod.fst
  have copied : ∀ answer after, ((SolveM.call (Device.copy request.iterate previous solver.owned) :
      SolveM α μ Unit) { scope with device := first }).Ends (answer, after) →
      after.device.contents buffer = scope.device.contents buffer ∧ after.device.Holds buffer := by
    intro answer after reached
    obtain ⟨contents, size⟩ := Prod.mk.inj (copies _ answer after reached)
    refine ⟨contents.trans (grown.contents buffer held), ?_⟩
    have inside := grown.holds held
    unfold Device.Holds at inside ⊢
    rwa [show after.device.buffers.size = first.buffers.size from size]
  obtain ⟨_, failed, rfl⟩ | ⟨_, second, moved, ends⟩ := meet_ends ends
  · exact (copied _ _ failed).1
  obtain ⟨same, held'⟩ := copied _ _ moved
  obtain ⟨partials, residual, after, prepared, grown', _, _, _, other⟩ :=
    prepare_sweep_run solver request previous second
  rw [meet_of_done prepared, direct] at ends
  have own : buffer ∉ Device.written (solver.sweepOn request (second.device.geometry solver.rows)
      previous partials residual) := by
    simp [Device.written, sweepOn, apart, elsewhere, other buffer held']
  refine (iterate_leaves own _ _ _ _ _ _ ends).trans ?_
  exact (grown'.contents buffer held').trans same

/-- However a solve ends, a buffer that is not its iterate, and that it was not lent as its
scratch or lent too short, holds what it held. -/
theorem solve_leaves (held : scope.device.Holds buffer)
    (ends : (solver.solve matrix request policy scope).Ends (result, last)) :
    last.device.contents buffer = scope.device.contents buffer := by
  obtain ⟨⟨result', last'⟩, ends', same⟩ := ends_direct ends
  have buffers : last.device.buffers = last'.device.buffers := congrArg (·.2.1) same
  suffices leaves : last'.device.contents buffer = scope.device.contents buffer by
    rw [← leaves]
    simp only [Device.contents, buffers]
  rw [solve_eq] at ends'
  obtain ⟨_, failed, _⟩ | ⟨_, told, reported, ends'⟩ := meet_ends ends'
  · cases ends_done_iff.mp failed
  cases ends_done_iff.mp reported
  obtain ⟨_, failed, _⟩ | ⟨_, _, asked, ends'⟩ := meet_ends ends'
  · cases ends_done_iff.mp failed
  cases ends_done_iff.mp asked
  generalize (solver.withLaunch .direct).validate matrix request _ = checked at ends'
  cases checked with
  | error refusal =>
      cases ends_done_iff.mp ends'
      rfl
  | ok =>
      obtain ⟨_, failed, _⟩ | ⟨_, _, passed, ends'⟩ := meet_ends ends'
      · cases ends_done_iff.mp failed
      cases ends_done_iff.mp passed
      have looked : Leaves (fun scope : SolveScope α μ => scope.device.buffers)
          ((solver.withLaunch .direct).endsAtOnce request) :=
        (ends_at_once_leaves (fun _ => rfl : Device.Unread Device.buffers) _ _).map Prod.fst
      obtain ⟨_, failed, _⟩ | ⟨now, after, answered, ends'⟩ := meet_ends ends'
      · simp only [Device.contents, looked _ _ _ failed]
        rfl
      have kept := looked _ _ _ answered
      change after.device.buffers = scope.device.buffers at kept
      have same : after.device.contents buffer = scope.device.contents buffer := by
        simp only [Device.contents, kept]
      rw [← same]
      cases now with
      | true =>
          obtain ⟨ended, alike, ran⟩ := conclude_at_once (solver.withLaunch .direct) matrix request
            policy after
          rw [ran] at ends'
          cases ends_done_iff.mp ends'
          exact alike.contents buffer
      | false =>
          have held' : ∀ other, scope.device.Holds other → after.device.Holds other := by
            intro other holds
            unfold Device.Holds at holds ⊢
            rwa [kept]
          unfold conclude at ends'
          rw [if_neg Bool.false_ne_true] at ends'
          exact relax_leaves apart (same ▸ spared)
            (fun auxiliary listed => held' _ (lent auxiliary listed)) (held' _ held) rfl ends'

end Held
end Solver
end Relaxation

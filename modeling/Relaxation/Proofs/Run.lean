import Relaxation.Proofs.Loop
import Relaxation.Proofs.Setup

/-!
All ways a loop can end. The answers of a group are not known beforehand, so a program
has many ends; each end of a loop is behind a chain of sweeps that the policy let pass.
-/

namespace Relaxation

variable {α β γ μ : Type}

namespace Collective

/-- With some answers to its calls a program ends with this result. -/
inductive Ends : Collective α β → β → Prop where
  | done (result : β) : Ends (.done result) result
  | sum {value : α} {next : α → Collective α β} {result : β} (total : α)
      (rest : Ends (next total) result) : Ends (.sum value next) result
  | exchange {neighbors : List Neighbor} {owned ghost : Array α}
      {next : Exchanged α → Collective α β} {result : β} (answer : Exchanged α)
      (rest : Ends (next answer) result) : Ends (.exchange neighbors owned ghost next) result

theorem ends_done_iff {result other : β} :
    (Collective.done other : Collective α β).Ends result ↔ result = other := by
  constructor
  · rintro ⟨⟩
    rfl
  · rintro rfl
    exact .done _

theorem ends_bind_iff {program : Collective α β} {next : β → Collective α γ} {result : γ} :
    (program.bind next).Ends result ↔ ∃ between, program.Ends between ∧ (next between).Ends result := by
  constructor
  · intro ends
    induction program with
    | done between => exact ⟨between, .done between, ends⟩
    | sum value rest ih =>
        obtain _ | ⟨total, ends⟩ := ends
        obtain ⟨between, first, second⟩ := ih total ends
        exact ⟨between, .sum total first, second⟩
    | exchange neighbors owned ghost rest ih =>
        obtain _ | _ | ⟨answer, ends⟩ := ends
        obtain ⟨between, first, second⟩ := ih answer ends
        exact ⟨between, .exchange answer first, second⟩
  · rintro ⟨between, first, second⟩
    induction first with
    | done between => exact second
    | sum total _ ih => exact .sum total (ih second)
    | exchange answer _ ih => exact .exchange answer (ih second)

theorem ends_map_iff {view : β → γ} {program : Collective α β} {shown : γ} :
    (view <$> program).Ends shown ↔ ∃ result, program.Ends result ∧ shown = view result := by
  have mapped : view <$> program = program.bind fun result => .done (view result) := rfl
  rw [mapped, ends_bind_iff]
  exact exists_congr fun result => and_congr_right fun _ => ends_done_iff

theorem Related.ends {R : β → γ → Prop} {left : Collective α β} {right : Collective α γ} {result : β}
    (related : Related R left right) (ends : left.Ends result) :
    ∃ other, right.Ends other ∧ R result other := by
  induction related with
  | done holds =>
      cases ends
      exact ⟨_, .done _, holds⟩
  | sum _ ih =>
      obtain _ | ⟨total, ends⟩ := ends
      obtain ⟨other, ends', holds⟩ := ih total ends
      exact ⟨other, .sum total ends', holds⟩
  | exchange _ ih =>
      obtain _ | _ | ⟨answer, ends⟩ := ends
      obtain ⟨other, ends', holds⟩ := ih answer ends
      exact ⟨other, .exchange answer ends', holds⟩

end Collective

open Collective

theorem meet_ends {ε σ : Type} {first : ExceptT ε (StateT σ (Collective α)) β}
    {next : β → ExceptT ε (StateT σ (Collective α)) γ} {before : σ} {result : Except ε γ} {last : σ}
    (ends : ((first >>= next) before).Ends (result, last)) :
    (∃ failure, (first before).Ends (.error failure, last) ∧ result = .error failure) ∨
      ∃ between after, (first before).Ends (.ok between, after) ∧
        (next between after).Ends (result, last) := by
  rw [meet_bind] at ends
  obtain ⟨⟨answer | answer, after⟩, reached, rest⟩ := ends_bind_iff.mp ends
  · obtain ⟨rfl, rfl⟩ := Prod.mk.inj (ends_done_iff.mp rest)
    exact .inl ⟨answer, reached, rfl⟩
  · exact .inr ⟨answer, after, reached, rest⟩

theorem meet_answers {ε σ : Type} {first : ExceptT ε (StateT σ (Collective α)) β}
    {next : β → ExceptT ε (StateT σ (Collective α)) γ} {before last : σ} {value : γ}
    (ends : ((first >>= next) before).Ends (.ok value, last)) :
    ∃ between after, (first before).Ends (.ok between, after) ∧
      (next between after).Ends (.ok value, last) := by
  obtain ⟨_, _, failed⟩ | reached := meet_ends ends
  · cases failed
  · exact reached

def Collective.answer? {ε σ : Type} : Collective α (Except ε β × σ) → Option β
  | .done (.ok answer, _) => some answer
  | _ => none

theorem Collective.done_of_answer {ε σ : Type} {program : Collective α (Except ε β × σ)} {answer : β}
    (answered : program.answer? = some answer) : ∃ last, program = .done (.ok answer, last) := by
  cases program with
  | sum | exchange => cases answered
  | done finished =>
      obtain ⟨result, last⟩ := finished
      cases result with
      | error failure => cases answered
      | ok result =>
          cases answered
          exact ⟨last, rfl⟩

theorem lift_ends {σ : Type} {program : Collective α β} {before after : σ}
    {result : Except (Failure α) β}
    (ends : ((liftM program : ExceptT (Failure α) (StateT σ (Collective α)) β) before).Ends
      (result, after)) :
    ∃ answer, program.Ends answer ∧ result = .ok answer ∧ after = before := by
  obtain ⟨_, first, second⟩ := ends_bind_iff.mp ends
  obtain ⟨answer, reached, third⟩ := ends_bind_iff.mp first
  cases ends_done_iff.mp third
  cases ends_done_iff.mp second
  exact ⟨answer, reached, rfl, rfl⟩

namespace SolveScope

structure Beside (R : μ → μ → Prop) (left right : SolveScope α μ) : Prop where
  device : left.device = right.device
  statistics : left.statistics = right.statistics
  memory : R left.memory right.memory

end SolveScope

namespace SolveM

variable {R : μ → μ → Prop}

theorem beside_on_device (operation : Operation α β) :
    Agree (SolveScope.Beside R) Eq (onDevice operation : SolveM α μ β) (onDevice operation) := by
  intro left right same
  unfold onDevice
  rw [same.device]
  apply Collective.related_bind (Collective.related_refl (operation right.device))
  rintro ⟨result, device⟩ _ rfl
  exact .done ⟨.refl result, rfl, same.statistics, same.memory⟩

theorem beside_issue [Arithmetic α] (launcher : Launcher) (sweep : Sweep) :
    Agree (SolveScope.Beside R) Eq (issue launcher sweep : SolveM α μ Launcher)
      (issue launcher sweep) := by
  intro left right same
  unfold issue
  rw [same.device]
  exact .done ⟨.refl _, rfl, same.statistics, same.memory⟩

theorem beside_report (event : Event α) :
    Agree (SolveScope.Beside R) Eq (report event : SolveM α μ Unit) (report event) := by
  apply Agree.ofModify
  intro left right same
  exact ⟨by rw [same.device], same.statistics, same.memory⟩

theorem beside_record_solve (iterations : Nat) :
    Agree (SolveScope.Beside R) Eq (recordSolve iterations : SolveM α μ Unit)
      (recordSolve iterations) := by
  apply Agree.ofModify
  intro left right same
  exact ⟨same.device, by rw [same.statistics], same.memory⟩

end SolveM

namespace Solver

section Parts

variable [Arithmetic α] {R : μ → μ → Prop}

theorem beside_scratch (auxiliary : Option Buffer) (needed : Nat) :
    Agree (SolveScope.Beside R) Eq (scratch auxiliary needed : SolveM α μ (Buffer × ScratchOrigin))
      (scratch auxiliary needed) := by
  have allocated : Agree (SolveScope.Beside R) Eq
      (do pure (← SolveM.call (Device.alloc needed), ScratchOrigin.allocated) :
        SolveM α μ (Buffer × ScratchOrigin))
      (do pure (← SolveM.call (Device.alloc needed), ScratchOrigin.allocated)) := by
    apply (SolveM.beside_on_device _).ofBind
    rintro buffer _ rfl
    exact .ofPure rfl
  unfold scratch
  cases auxiliary with
  | none => exact allocated
  | some buffer =>
      apply Agree.ofGet
      intro left right same
      rw [same.device]
      exact .ofIte (.ofPure rfl) ((SolveM.beside_report _).ofBind fun _ _ _ => allocated)

theorem beside_prepare_sweep (solver : Solver α) (request : Request α) (previous : Buffer) :
    Agree (SolveScope.Beside R) Eq (solver.prepareSweep request previous : SolveM α μ Sweep)
      (solver.prepareSweep request previous) := by
  apply Agree.ofGet
  intro left right same
  rw [same.device]
  apply (SolveM.beside_on_device _).ofBind
  rintro partials _ rfl
  apply (SolveM.beside_on_device _).ofBind
  rintro residual _ rfl
  exact .ofPure rfl

variable [SquareRoot α]

theorem beside_ends_at_once (solver : Solver α) (request : Request α) :
    Agree (SolveScope.Beside R) Eq (solver.endsAtOnce request : SolveM α μ Bool)
      (solver.endsAtOnce request) := by
  refine .ofIte (Agree.ofBind ?_ fun _ _ same => .ofPure (congrArg _ same)) (.ofPure rfl)
  apply (SolveM.beside_on_device _).ofBind
  rintro values _ rfl
  apply (Agree.ofCollective _).ofBind
  rintro squares _ rfl
  exact .ofPure rfl

end Parts

variable [Arithmetic α] [SquareRoot α] {solver : Solver α} {matrix : Matrix α} {policy : Policy α μ}
  {sweep : Sweep} {origin : ScratchOrigin} {launcher : Launcher} {scope : SolveScope α μ}

theorem beside_sweep_once (solver : Solver α) (matrix : Matrix α) (sweep : Sweep)
    (launcher : Launcher) {R : μ → μ → Prop} :
    Agree (SolveScope.Beside R) Eq (solver.sweepOnce matrix sweep launcher : SolveM α μ (α × Launcher))
      (solver.sweepOnce matrix sweep launcher) := by
  apply (SolveM.beside_on_device _).ofBind
  rintro _ _ rfl
  apply (SolveM.beside_issue _ _).ofBind
  rintro launcher _ rfl
  apply (SolveM.beside_on_device _).ofBind
  rintro squares _ rfl
  apply (Agree.ofCollective _).ofBind
  rintro total _ rfl
  exact .ofPure rfl

theorem sweep_once_keeps {result : Except (Failure α) (α × Launcher)} {after : SolveScope α μ}
    (ends : (solver.sweepOnce matrix sweep launcher scope).Ends (result, after)) :
    after.memory = scope.memory := by
  have kept := beside_sweep_once (R := fun left _ => left = scope.memory) solver matrix sweep
    launcher scope scope ⟨rfl, rfl, rfl⟩
  obtain ⟨_, _, _, beside⟩ := kept.ends ends
  exact beside.memory

/-- One sweep after the other, with the residuals they end with. Between two sweeps the
policy is asked and events are reported, which no sweep depends on. -/
inductive Sweeps (solver : Solver α) (matrix : Matrix α) (sweep : Sweep) :
    Launcher → SolveScope α μ → List α → Launcher → SolveScope α μ → Prop where
  | none (launcher : Launcher) (scope : SolveScope α μ) :
      Sweeps solver matrix sweep launcher scope [] launcher scope
  | more {launcher next final : Launcher} {scope after asked last : SolveScope α μ} {residual : α}
      {residuals : List α}
      (swept : (solver.sweepOnce matrix sweep launcher scope).Ends (.ok (residual, next), after))
      (alike : asked.device.Alike after.device)
      (rest : Sweeps solver matrix sweep next asked residuals final last) :
      Sweeps solver matrix sweep launcher scope (residual :: residuals) final last

def heard (policy : Policy α μ) (progress : Progress α) (memory : μ) : List α → Progress α × μ
  | [] => (progress, memory)
  | residual :: rest =>
    heard policy (observed progress residual) (verdict policy progress residual memory).2 rest

def GoesOn (policy : Policy α μ) (progress : Progress α) (memory : μ) : List α → Prop
  | [] => True
  | residual :: rest =>
    (verdict policy progress residual memory).1.terminal = false ∧
      GoesOn policy (observed progress residual) (verdict policy progress residual memory).2 rest

omit [Arithmetic α] [SquareRoot α] in
theorem goes_on_append {progress : Progress α} {memory : μ} {before after : List α}
    (goes : GoesOn policy progress memory (before ++ after)) :
    GoesOn policy progress memory before ∧
      GoesOn policy (heard policy progress memory before).1
        (heard policy progress memory before).2 after := by
  induction before generalizing progress memory with
  | nil => exact ⟨trivial, goes⟩
  | cons residual before ih =>
      obtain ⟨going, rest⟩ := goes
      obtain ⟨first, second⟩ := ih rest
      exact ⟨⟨going, first⟩, second⟩

omit [Arithmetic α] [SquareRoot α] in
theorem heard_iterations (residuals : List α) (progress : Progress α) (memory : μ) :
    (heard policy progress memory residuals).1.iterations =
      progress.iterations + residuals.length := by
  induction residuals generalizing progress memory with
  | nil => rfl
  | cons residual rest ih =>
      rw [heard, ih, List.length_cons, Nat.add_comm rest.length, ← Nat.add_assoc]
      rfl

inductive Concludes (solver : Solver α) (matrix : Matrix α) (policy : Policy α μ) (sweep : Sweep)
    (origin : ScratchOrigin) (launcher : Launcher) (progress : Progress α) (history : Array α)
    (scope : SolveScope α μ) :
    Nat → Except (Failure α) (Outcome α) × SolveScope α μ → Prop where
  | uncounted :
      Concludes solver matrix policy sweep origin launcher progress history scope 0
        (.error (.faulted .overflow), scope)
  | failed {room : Nat} {failure : Failure α} {last : SolveScope α μ}
      (ends : (solver.sweepOnce matrix sweep launcher scope).Ends (.error failure, last)) :
      Concludes solver matrix policy sweep origin launcher progress history scope (room + 1)
        (.error failure, last)
  | stopped {room : Nat} {residual : α} {next : Launcher} {after last : SolveScope α μ}
      (swept : (solver.sweepOnce matrix sweep launcher scope).Ends (.ok (residual, next), after))
      (alike : last.device.Alike after.device)
      (memory : last.memory = (verdict policy progress residual scope.memory).2)
      (terminal : (verdict policy progress residual scope.memory).1.terminal = true) :
      Concludes solver matrix policy sweep origin launcher progress history scope (room + 1)
        (.ok (Solver.stopped origin progress history residual
          (verdict policy progress residual scope.memory).1), last)

/-- Every end of a loop is behind some sweeps that the policy lets pass. The induction is on
what the iteration counter can still count. -/
theorem iterate_ends (remaining : Nat) {launcher : Launcher} {progress : Progress α}
    {history : Array α} {scope : SolveScope α μ}
    {finished : Except (Failure α) (Outcome α) × SolveScope α μ}
    (ends : (solver.iterate matrix policy sweep origin remaining launcher progress history
      scope).Ends finished) :
    ∃ residuals final reached, residuals.length ≤ remaining ∧
      Sweeps solver matrix sweep launcher scope residuals final reached ∧
      GoesOn policy progress scope.memory residuals ∧
      (heard policy progress scope.memory residuals).2 = reached.memory ∧
      Concludes solver matrix policy sweep origin final
        (heard policy progress scope.memory residuals).1 (history ++ residuals) reached
        (remaining - residuals.length) finished := by
  induction remaining generalizing launcher progress history scope with
  | zero =>
      cases ends_done_iff.mp ends
      exact ⟨[], launcher, scope, Nat.le_refl 0, .none _ _, trivial, rfl, .uncounted⟩
  | succ remaining ih =>
      obtain ⟨result, last⟩ := finished
      rw [iterate_succ] at ends
      rcases meet_ends ends with ⟨failure, failed, rfl⟩ | ⟨⟨residual, next⟩, after, swept, judged⟩
      · exact ⟨[], launcher, scope, Nat.zero_le _, .none _ _, trivial, rfl, .failed failed⟩
      · obtain ⟨asked, alike, memory, shape⟩ := solver.judge_run matrix policy sweep origin remaining
          next progress history residual after
        rw [sweep_once_keeps swept] at memory shape
        rw [shape] at judged
        split at judged
        · rename_i terminal
          cases ends_done_iff.mp judged
          exact ⟨[], launcher, scope, Nat.zero_le _, .none _ _, trivial, rfl,
            .stopped swept alike memory terminal⟩
        · rename_i going
          obtain ⟨residuals, final, reached, room, sweeps, goes, same, concludes⟩ := ih judged
          rw [memory] at goes same concludes
          refine ⟨residual :: residuals, final, reached, Nat.succ_le_succ room,
            .more swept alike sweeps, ⟨Bool.eq_false_iff.mpr going, goes⟩, same, ?_⟩
          rw [List.length_cons, Nat.add_sub_add_right]
          simpa [heard, Array.push_append] using concludes

theorem solve_ends {request : Request α} {outcome : Outcome α} {last : SolveScope α μ}
    (ends : (solver.solve matrix request policy scope).Ends (.ok outcome, last)) :
    outcome = nothingToSolve ∨ ∃ sweep origin entry,
      (solver.iterate matrix policy sweep origin iterationLimit (.ofMode solver.config.launch)
        (.start solver.name solver.config.verbosity solver.config.maxIterations
          solver.config.precision request.norm) #[] entry).Ends (.ok outcome, last) := by
  rw [solve_eq] at ends
  obtain ⟨_, reported, _, ends⟩ := meet_answers ends
  obtain ⟨seen, looked, _, ends⟩ := meet_answers ends
  obtain ⟨_, checked, _, ends⟩ := meet_answers ends
  obtain ⟨now, asked, _, ends⟩ := meet_answers ends
  cases now with
  | true =>
      obtain ⟨after, _, ran⟩ := conclude_at_once solver matrix request policy asked
      rw [ran] at ends
      cases ends_done_iff.mp ends
      exact .inl rfl
  | false =>
      obtain ⟨⟨previous, origin⟩, scratched, _, ends⟩ := meet_answers ends
      obtain ⟨_, copied, _, ends⟩ := meet_answers ends
      obtain ⟨sweep, entry, _, ends⟩ := meet_answers ends
      exact .inr ⟨sweep, origin, entry, ends⟩

theorem ends_at_once_ends {request : Request α} {result : Except (Failure α) Bool}
    {after : SolveScope α μ} (long : solver.owned ≤ (scope.device.contents request.rhs).size)
    (ends : ((solver.endsAtOnce request : SolveM α μ Bool) scope).Ends (result, after)) :
    ∃ now, result = .ok now ∧ after.device.Alike scope.device := by
  obtain ⟨last, alike, asked⟩ := ends_at_once_run request long
  rw [asked] at ends
  split at ends
  · obtain ⟨_, _, rest⟩ := ends_bind_iff.mp ends
    cases ends_done_iff.mp rest
    exact ⟨_, rfl, alike⟩
  · cases ends_done_iff.mp ends
    exact ⟨false, rfl, alike⟩

theorem ends_direct {request : Request α} {finished : Except (Failure α) (Outcome α) × SolveScope α μ}
    (ends : (solver.solve matrix request policy scope).Ends finished) :
    ∃ finished', ((solver.withLaunch .direct).solve matrix request policy scope).Ends finished' ∧
      seen finished = seen finished' := by
  have same := solver.seen_solve matrix request policy scope solver.config.launch
  have shown : (seen <$> solver.solve matrix request policy scope).Ends (seen finished) :=
    ends_map_iff.mpr ⟨finished, ends, rfl⟩
  change seen <$> solver.solve matrix request policy scope = _ at same
  rw [same] at shown
  exact ends_map_iff.mp shown

end Solver
end Relaxation

import Relaxation.Proofs.Refusal
import Relaxation.Proofs.SetupShapes

/-!
The statistics of a solver over all its solves. A solve that answers is recorded once, whether it
comes out of its loop or ends at once, and no other end is recorded.
-/

namespace Relaxation

variable {α β μ : Type}

open Collective

def SolveScope.books (scope : SolveScope α μ) : Counters × Statistics :=
  (scope.device.counters, scope.statistics)

namespace SolveM

theorem books_report (event : Event α) :
    Leaves SolveScope.books (report event : SolveM α μ Unit) :=
  .ofModify fun _ => rfl

theorem books_query (policy : Policy α μ) (iteration : Nat) (residual : α)
    (progress : Progress α) :
    Leaves SolveScope.books (query policy iteration residual progress) := by
  intro before result after ends
  cases ends_done_iff.mp ends
  rfl

theorem books_call {call : DeviceM α β} (keeps : Device.Keeps Device.counters call) :
    Leaves SolveScope.books (SolveM.call call : SolveM α μ β) :=
  (leaves_call keeps).map fun shown => (shown.1, shown.2.1)

theorem statistics_on_device (operation : Operation α β) :
    Leaves SolveScope.statistics (onDevice operation : SolveM α μ β) := by
  intro before result after ends
  obtain ⟨_, _, rest⟩ := ends_bind_iff.mp ends
  cases ends_done_iff.mp rest
  rfl

theorem statistics_issue [Arithmetic α] (launcher : Launcher) (sweep : Sweep) :
    Leaves SolveScope.statistics (issue launcher sweep : SolveM α μ Launcher) := by
  intro before result after ends
  cases ends_done_iff.mp ends
  rfl

end SolveM

namespace Solver

section Parts

theorem books_copy (source target : Buffer) (length : Nat) :
    Leaves SolveScope.books (SolveM.call (Device.copy source target length) : SolveM α μ Unit) :=
  SolveM.books_call (Device.keeps_copy fun _ _ => rfl)

variable [Arithmetic α]

theorem books_alloc (length : Nat) :
    Leaves SolveScope.books (SolveM.call (Device.alloc length) : SolveM α μ Buffer) :=
  SolveM.books_call fun _ => rfl

theorem books_scratch (auxiliary : Option Buffer) (needed : Nat) :
    Leaves SolveScope.books
      (scratch auxiliary needed : SolveM α μ (Buffer × ScratchOrigin)) := by
  have allocated : Leaves SolveScope.books
      (do pure (← SolveM.call (Device.alloc needed), .allocated) :
        SolveM α μ (Buffer × ScratchOrigin)) :=
    (books_alloc needed).ofBind fun _ _ _ _ => .ofPure _
  unfold scratch
  cases auxiliary with
  | none => exact allocated
  | some buffer =>
      exact .ofGet fun _ => .ofIte (.ofPure _)
        ((SolveM.books_report _).ofBind fun _ _ _ _ => allocated)

theorem books_prepare_sweep (solver : Solver α) (request : Request α) (previous : Buffer) :
    Leaves SolveScope.books (solver.prepareSweep request previous : SolveM α μ Sweep) :=
  .ofGet fun _ => (books_alloc _).ofBind fun _ _ _ _ => (books_alloc 1).ofBind fun _ _ _ _ =>
    .ofPure _

end Parts

theorem finish_ends {outcome : Outcome α} {loud : Prop} [Decidable loud] {event : Event α}
    {iterations : Nat} {scope last : SolveScope α μ} {result : Except (Failure α) (Outcome α)}
    (ends : ((do
      SolveM.recordSolve iterations
      if loud then SolveM.report event
      pure outcome : SolveM α μ (Outcome α)) scope).Ends (result, last)) :
    result = .ok outcome ∧
      last.books = (scope.device.counters, scope.statistics.recordSolve iterations 0) := by
  obtain ⟨_, failed, _⟩ | ⟨_, recorded, reached, ends⟩ := meet_ends ends
  · cases ends_done_iff.mp failed
  cases ends_done_iff.mp reached
  split at ends <;> cases ends_done_iff.mp ends <;> exact ⟨rfl, rfl⟩

variable [Arithmetic α] [SquareRoot α] {solver : Solver α} {matrix : Matrix α}
  {policy : Policy α μ} {sweep : Sweep} {origin : ScratchOrigin} {launcher : Launcher}
  {request : Request α} {scope last : SolveScope α μ} {result : Except (Failure α) (Outcome α)}

theorem judge_ends {remaining : Nat} {progress : Progress α} {history : Array α} {residual : α}
    (ends : (solver.judge matrix policy sweep origin remaining progress history
      (residual, launcher) scope).Ends (result, last)) :
    (∃ state, result = .ok (stopped origin progress history residual state) ∧
      last.books = (scope.device.counters,
        scope.statistics.recordSolve (progress.iterations + 1) 0)) ∨
    ∃ asked, asked.books = scope.books ∧
      (solver.iterate matrix policy sweep origin remaining launcher (observed progress residual)
        (history.push residual) asked).Ends (result, last) := by
  unfold judge at ends
  dsimp only at ends
  obtain ⟨_, failed, _⟩ | ⟨state, queried, reached, ends⟩ := meet_ends ends
  · cases ends_done_iff.mp failed
  have same := SolveM.books_query _ _ _ _ _ _ _ reached
  obtain ⟨asked, told, ends⟩ : ∃ asked : SolveScope α μ, asked.books = queried.books ∧
      ((if state.terminal = true then do
          SolveM.recordSolve (progress.iterations + 1)
          if 1 ≤ solver.config.verbosity then
            SolveM.report (.finished state (progress.iterations + 1) residual)
          pure (stopped origin progress history residual state)
        else solver.iterate matrix policy sweep origin remaining launcher
          (observed progress residual) (history.push residual) : SolveM α μ (Outcome α))
        asked).Ends (result, last) := by
    split at ends
    · obtain ⟨_, failed, _⟩ | ⟨_, asked, reported, ends⟩ := meet_ends ends
      · cases ends_done_iff.mp failed
      · exact ⟨asked, SolveM.books_report _ _ _ _ reported, ends⟩
    · exact ⟨queried, rfl, ends⟩
  split at ends
  · obtain ⟨answered, recorded⟩ := finish_ends ends
    obtain ⟨counters, statistics⟩ := Prod.mk.inj (told.trans same)
    rw [counters, statistics] at recorded
    exact .inl ⟨state, answered, recorded⟩
  · exact .inr ⟨asked, told.trans same, ends⟩

inductive Recorded (before : Statistics) : Except (Failure α) (Outcome α) → Statistics → Prop where
  | answered (outcome : Outcome α) :
      Recorded before (.ok outcome) (before.recordSolve outcome.iterations 0)
  | failed (failure : Failure α) : Recorded before (.error failure) before

omit [Arithmetic α] [SquareRoot α] in
theorem Recorded.of_ok {before after : Statistics} {outcome : Outcome α}
    (recorded : Recorded before (.ok outcome) after) :
    after = before.recordSolve outcome.iterations 0 := by
  cases recorded
  rfl

omit [Arithmetic α] [SquareRoot α] in
theorem Recorded.of_error {before after : Statistics} {failure : Failure α}
    (recorded : Recorded before (.error failure) after) : after = before := by
  cases recorded
  rfl

omit [Arithmetic α] [SquareRoot α] in
theorem recorded_behind {first : SolveM α μ β} {next : β → SolveM α μ (Outcome α)}
    (leaves : Leaves SolveScope.statistics first)
    (ends : ((first >>= next) scope).Ends (result, last))
    (later : ∀ value middle, (next value middle).Ends (result, last) →
      Recorded middle.statistics result last.statistics) :
    Recorded scope.statistics result last.statistics := by
  obtain ⟨failure, failed, rfl⟩ | ⟨value, middle, reached, ends⟩ := meet_ends ends
  · rw [leaves _ _ _ failed]
    exact .failed failure
  · rw [← leaves _ _ _ reached]
    exact later value middle ends

theorem statistics_sweep_once (solver : Solver α) (matrix : Matrix α) (sweep : Sweep)
    (launcher : Launcher) : Leaves SolveScope.statistics
      (solver.sweepOnce matrix sweep launcher : SolveM α μ (α × Launcher)) :=
  (SolveM.statistics_on_device _).ofBind fun _ _ _ _ =>
    (SolveM.statistics_issue launcher sweep).ofBind fun _ _ _ _ =>
      (SolveM.statistics_on_device _).ofBind fun _ _ _ _ =>
        (Leaves.ofCollective _).ofBind fun _ _ _ _ => .ofPure _

theorem iterate_recorded (remaining : Nat) {progress : Progress α} {history : Array α}
    (ends : (solver.iterate matrix policy sweep origin remaining launcher progress history
      scope).Ends (result, last)) : Recorded scope.statistics result last.statistics := by
  -- the induction is on what the iteration counter can still count
  induction remaining generalizing launcher progress history scope with
  | zero =>
      cases ends_done_iff.mp ends
      exact .failed _
  | succ remaining ih =>
      rw [iterate_succ] at ends
      refine recorded_behind (statistics_sweep_once solver matrix sweep launcher) ends
        fun answer swept judged => ?_
      obtain ⟨state, rfl, recorded⟩ | ⟨asked, same, ends⟩ := judge_ends judged
      · rw [show last.statistics = _ from (Prod.mk.inj recorded).2]
        exact .answered (stopped origin progress history answer.1 state)
      · rw [← show asked.statistics = swept.statistics from (Prod.mk.inj same).2]
        exact ih ends

theorem statistics_ends_at_once (solver : Solver α) (request : Request α) :
    Leaves SolveScope.statistics (solver.endsAtOnce request : SolveM α μ Bool) :=
  have unread : Device.Unread fun _ : Device α => () := fun _ => rfl
  (ends_at_once_leaves unread solver request).map fun shown => shown.2.1

theorem conclude_recorded (now : Bool)
    (ends : (solver.conclude matrix request policy now scope).Ends (result, last)) :
    Recorded scope.statistics result last.statistics := by
  unfold conclude at ends
  cases now with
  | true =>
      rw [if_pos rfl] at ends
      obtain ⟨rfl, recorded⟩ := finish_ends ends
      rw [show last.statistics = _ from (Prod.mk.inj recorded).2]
      exact .answered nothingToSolve
  | false =>
      rw [if_neg Bool.false_ne_true, relax_eq] at ends
      refine recorded_behind ((books_scratch _ _).map Prod.snd) ends fun scratch _ ends => ?_
      unfold relaxOn at ends
      refine recorded_behind ((books_copy _ _ _).map Prod.snd) ends fun _ _ ends => ?_
      refine recorded_behind ((books_prepare_sweep _ _ _).map Prod.snd) ends fun _ _ ends => ?_
      exact iterate_recorded _ ends

/-- Whatever is asked of it, a solve that answers is recorded with its iterations, and one that
fails leaves the statistics as they were. -/
theorem solve_recorded (ends : (solver.solve matrix request policy scope).Ends (result, last)) :
    Recorded scope.statistics result last.statistics := by
  cases checked : solver.validate matrix request scope.device with
  | error refusal =>
      rw [solve_refused policy checked] at ends
      cases ends_done_iff.mp ends
      exact .failed _
  | ok =>
      rw [solve_passed policy checked] at ends
      have recorded : Recorded (solver.announced scope).statistics result last.statistics :=
        recorded_behind (statistics_ends_at_once solver request) ends
          fun now _ ends => conclude_recorded now ends
      exact recorded

end Solver

namespace Statistics

variable {counts : List Nat} {statistics : Statistics}

structure Tallies (statistics : Statistics) (counts : List Nat) : Prop where
  setups : statistics.setups = 1
  solves : statistics.solves = counts.length
  last : statistics.lastIterations = counts.getLast?.getD 0
  least : statistics.minIterations = counts.min?.getD 0
  greatest : statistics.maxIterations = counts.max?.getD 0
  total : statistics.totalIterations = counts.sum

theorem tallies_setup : (recordSetup {} 0).Tallies [] :=
  ⟨rfl, rfl, rfl, rfl, rfl, rfl⟩

theorem Tallies.recordSolve (tallies : statistics.Tallies counts) (iterations elapsed : Nat) :
    (statistics.recordSolve iterations elapsed).Tallies (counts ++ [iterations]) where
  setups := tallies.setups
  solves := by
    rw [List.length_append]
    exact congrArg (· + 1) tallies.solves
  last := by
    rw [List.getLast?_concat]
    rfl
  least := by
    have solves := tallies.solves
    have least := tallies.least
    cases counts with
    | nil => exact if_pos solves
    | cons first rest =>
        have several : statistics.solves ≠ 0 := solves ▸ Nat.succ_ne_zero _
        refine (if_neg several).trans ?_
        rw [least, List.cons_append, List.min?_cons', List.min?_cons', List.foldl_append]
        rfl
  greatest := by
    have solves := tallies.solves
    have greatest := tallies.greatest
    cases counts with
    | nil => exact if_pos solves
    | cons first rest =>
        have several : statistics.solves ≠ 0 := solves ▸ Nat.succ_ne_zero _
        refine (if_neg several).trans ?_
        rw [greatest, List.cons_append, List.max?_cons', List.max?_cons', List.foldl_append]
        rfl
  total := by
    rw [List.sum_append, List.sum_singleton]
    exact congrArg (· + iterations) tallies.total

theorem Tallies.bounds (tallies : statistics.Tallies counts) :
    statistics.minIterations ≤ statistics.lastIterations ∧
      statistics.lastIterations ≤ statistics.maxIterations ∧
      statistics.solves * statistics.minIterations ≤ statistics.totalIterations ∧
      statistics.totalIterations ≤ statistics.solves * statistics.maxIterations := by
  rw [tallies.solves, tallies.last, tallies.least, tallies.greatest, tallies.total]
  cases counts with
  | nil => decide
  | cons first rest =>
      have least : (first :: rest).min? = some (rest.foldl min first) := List.min?_cons'
      have greatest : (first :: rest).max? = some (rest.foldl max first) := List.max?_cons'
      have low := List.min?_eq_some_iff.mp least
      have high := List.max?_eq_some_iff.mp greatest
      have last := List.getLast_mem (List.cons_ne_nil first rest)
      rw [least, greatest, List.getLast?_eq_some_getLast (List.cons_ne_nil _ _)]
      exact ⟨low.2 _ last, high.2 _ last, List.card_nsmul_le_sum _ _ low.2,
        List.sum_le_card_nsmul _ _ high.2⟩

theorem Tallies.mean (tallies : statistics.Tallies counts) :
    statistics.meanIterations =
      if counts = [] then 0.0 else Float.ofNat counts.sum / Float.ofNat counts.length := by
  unfold meanIterations
  rw [tallies.solves, tallies.total]
  simp only [List.length_eq_zero_iff]

end Statistics

namespace Solver

def answeredIterations (results : List (Except (Failure α) (Outcome α))) : List Nat :=
  results.filterMap fun
    | .ok outcome => some outcome.iterations
    | .error _ => none

variable [Arithmetic α] [SquareRoot α] {solver : Solver α}
  {results : List (Except (Failure α) (Outcome α))} {statistics : Statistics}

/-- Solves of one solver, one after the other: each begins with the statistics that the last one
has left. Between two of them the device, the policy and the group may be any. -/
inductive Served (solver : Solver α) :
    List (Except (Failure α) (Outcome α)) → Statistics → Prop where
  | fresh : Served solver [] solver.statistics
  | solve {μ : Type} {results : List (Except (Failure α) (Outcome α))} {matrix : Matrix α}
      {request : Request α} {policy : Policy α μ} {scope last : SolveScope α μ}
      {result : Except (Failure α) (Outcome α)} (earlier : Served solver results scope.statistics)
      (communicator : Communicator)
      (ends : ((solver.withCommunicator communicator).solve matrix request policy scope).Ends
        (result, last)) :
      Served solver (results ++ [result]) last.statistics

omit [SquareRoot α] in
theorem setup_uploads {name : String} {matrix : Matrix α} {config : Config α}
    {inverse : InverseDiagonal α} {bare made : Device α}
    (ran : setupWithInverse name matrix config inverse bare = (.ok solver, made)) :
    ∃ (first second : Device α) (event : Event α),
      (Device.upload matrix.diagonal : DeviceM α Buffer) (bare.report (.setupSpan name)) =
        (.ok solver.diagonal, first) ∧
      (Device.upload inverse.values : DeviceM α Buffer) first = (.ok solver.inverse, second) ∧
      made = second.report event ∧ solver.statistics = Statistics.recordSetup {} 0 := by
  obtain ⟨first, uploaded, _⟩ := Device.upload_run matrix.diagonal (bare.report (.setupSpan name))
  obtain ⟨second, uploaded', _⟩ := Device.upload_run inverse.values first
  obtain ⟨checked, _⟩ := setup_ok ran
  unfold setupWithInverse at ran
  rw [modify_bind, checked, lift_ok_bind, bind_of_ok uploaded, bind_of_ok uploaded',
    modify_bind] at ran
  cases ran
  exact ⟨first, second, _, uploaded, uploaded', rfl, rfl⟩

omit [SquareRoot α] in
theorem SetUp.with_inverse {made : Device α} (setUp : SetUp solver made) :
    ∃ name matrix config inverse, ∃ bare : Device α,
      setupWithInverse name matrix config inverse bare = (.ok solver, made) := by
  cases setUp with
  | given ran => exact ⟨_, _, _, _, _, ran⟩
  | factored ran =>
      rw [setup_eq] at ran
      split at ran
      · cases ran
      · exact ⟨_, _, _, _, _, ran⟩

omit [SquareRoot α] in
theorem SetUp.fresh {made : Device α} (setUp : SetUp solver made) :
    solver.statistics = Statistics.recordSetup {} 0 := by
  obtain ⟨_, _, _, _, _, ran⟩ := setUp.with_inverse
  obtain ⟨_, _, _, _, _, _, recorded⟩ := setup_uploads ran
  exact recorded

theorem Served.tallies (served : Served solver results statistics)
    (fresh : solver.statistics.Tallies []) : statistics.Tallies (answeredIterations results) := by
  induction served with
  | fresh => exact fresh
  | @solve _ results _ _ _ scope last result _ _ ends ih =>
      have recorded := solve_recorded ends
      unfold answeredIterations at ih ⊢
      rw [List.filterMap_append]
      generalize last.statistics = after at recorded ⊢
      cases recorded with
      | answered outcome => exact ih.recordSolve outcome.iterations 0
      | failed failure => exact (List.append_nil _).symm ▸ ih

/-- Whatever the solves of a solver have come to, its statistics count those that have answered,
and show the last, least and greatest number of their iterations and the sum of these. -/
theorem statistics_tally_answers {made : Device α} (setUp : SetUp solver made)
    (served : Served solver results statistics) :
    statistics.Tallies (answeredIterations results) ∧
      (statistics.minIterations ≤ statistics.lastIterations ∧
        statistics.lastIterations ≤ statistics.maxIterations ∧
        statistics.solves * statistics.minIterations ≤ statistics.totalIterations ∧
        statistics.totalIterations ≤ statistics.solves * statistics.maxIterations) ∧
      statistics.meanIterations = if answeredIterations results = [] then 0.0 else
        Float.ofNat (answeredIterations results).sum /
          Float.ofNat (answeredIterations results).length := by
  have fresh : solver.statistics.Tallies [] := setUp.fresh ▸ Statistics.tallies_setup
  have tallies := served.tallies fresh
  exact ⟨tallies, tallies.bounds, tallies.mean⟩

/-- Two rows, with a right-hand side in buffer 2, a start vector in 3 and zeros in 4. -/
def twoRowsSolve (rhs iterate : Nat) (norm : ℚ) (statistics : Statistics) :
    Collective ℚ (Except (Failure ℚ) (Outcome ℚ) × SolveScope ℚ (Option (Best ℚ))) :=
  @solve ℚ _ _ ⟨id⟩ twoRowsSolver twoRows ⟨⟨rhs⟩, ⟨iterate⟩, norm, none⟩ (.residual none)
    ⟨{ twoRowsDevice with buffers := twoRowsDevice.buffers.push #[0, 0] }, statistics, none⟩

/-- Of three solves the second is refused, and the third has nothing to do. -/
theorem two_answers_tallied :
    letI : SquareRoot ℚ := ⟨id⟩
    ∃ made results statistics, SetUp twoRowsSolver made ∧ Served twoRowsSolver results statistics ∧
      results.length = 3 ∧ answeredIterations results = [2, 0] ∧
      statistics.minIterations = 0 ∧ statistics.maxIterations = 2 ∧
      statistics.totalIterations = 2 := by
  let root : SquareRoot ℚ := ⟨id⟩
  obtain ⟨made, ran⟩ : ∃ made, setupWithInverse "rows" twoRows .standard (.reciprocals #[1, 1])
      (Device.create .narrowest) = (.ok twoRowsSolver, made) := ⟨_, rfl⟩
  have setUp : SetUp twoRowsSolver made := .given ran
  have step : ∀ {results statistics rhs iterate norm result last},
      Served twoRowsSolver results statistics →
      twoRowsSolve rhs iterate norm statistics = .done (result, last) →
      Served twoRowsSolver (results ++ [result]) last.statistics ∧
        Recorded statistics result last.statistics := by
    intro results statistics rhs iterate norm result last served ended
    have ends : (twoRowsSolve rhs iterate norm statistics).Ends (result, last) := ended ▸ .done _
    exact ⟨.solve served .alone ends, solve_recorded ends⟩
  obtain ⟨first, answered, two⟩ := Option.map_eq_some_iff.mp (show
    (twoRowsSolve 2 3 1 (Statistics.recordSetup {} 0)).answer?.map Outcome.iterations = some 2 by
      decide +kernel)
  obtain ⟨_, ended⟩ := Collective.done_of_answer answered
  obtain ⟨served, recorded⟩ := step .fresh ended
  rw [recorded.of_ok, two] at served
  obtain ⟨refusal, refused⟩ := Option.isSome_iff_exists.mp (show
    (twoRowsSolve 3 3 1 ((Statistics.recordSetup {} 0).recordSolve 2 0)).refusal?.isSome by
      decide +kernel)
  obtain ⟨_, ended⟩ := Collective.done_of_refusal refused
  obtain ⟨served, recorded⟩ := step served ended
  rw [recorded.of_error] at served
  obtain ⟨last, answered, none⟩ := Option.map_eq_some_iff.mp (show
    (twoRowsSolve 4 3 0 ((Statistics.recordSetup {} 0).recordSolve 2 0)).answer?.map
      Outcome.iterations = some 0 by decide +kernel)
  obtain ⟨_, ended⟩ := Collective.done_of_answer answered
  obtain ⟨served, _⟩ := step served ended
  have counted : answeredIterations
      ([] ++ [.ok first] ++ [.error (.refused refusal)] ++ [.ok last]) = [2, 0] := by
    simp [answeredIterations, two, none]
  obtain ⟨tallies, _⟩ := statistics_tally_answers setUp served
  rw [counted] at tallies
  exact ⟨made, _, _, setUp, served, rfl, counted, tallies.least, tallies.greatest, tallies.total⟩

end Solver
end Relaxation

import Relaxation.Proofs.Solve
import Relaxation.Proofs.Stopping

/-!
The loop under the default policy. Whatever the sweeps come to, it ends with the first
residual that meets one of the conditions, and nothing that an earlier solve left with the
policy has a say in it.
-/

namespace Relaxation

variable {α : Type} [Arithmetic α]

namespace Criteria

open Solver

def LetsPass (criteria : Criteria α) (residuals : List α) : Prop :=
  ∀ before residual after, residuals = before ++ residual :: after →
    criteria.Ruling before residual .iterating

/-- The outcome of a loop that ends behind `residual`: all residuals are reported, and the
state is that of the first condition that holds. -/
structure Ruled (criteria : Criteria α) (earlier : List α) (residual : α) (outcome : Outcome α) :
    Prop where
  history : outcome.history = (earlier ++ [residual]).toArray
  iterations : outcome.iterations = earlier.length + 1
  few : outcome.iterations ≤ max 1 criteria.maxIterations.toNat
  initialResidual : outcome.initialResidual = some (earlier.headD residual)
  terminal : outcome.state.terminal = true
  ruling : criteria.Ruling earlier residual outcome.state
  residual : outcome.residual = residual

variable {criteria : Criteria α}

theorem tracks_start (name : String) (verbosity : Nat) (memory : Option (Best α)) :
    criteria.Tracks [] (.start name verbosity criteria.maxIterations criteria.precision
      criteria.norm) memory :=
  ⟨rfl, rfl, rfl, rfl, rfl, by simp, by simp⟩

theorem Tracks.goes_on [StrictOrder α] {earlier passed : List α} {progress : Progress α}
    {memory : Option (Best α)} (tracks : criteria.Tracks earlier progress memory)
    (goes : GoesOn (.residual criteria.stallWindow) progress memory passed) :
    criteria.Tracks (earlier ++ passed)
      (heard (.residual criteria.stallWindow) progress memory passed).1
      (heard (.residual criteria.stallWindow) progress memory passed).2 := by
  -- the induction is on the residuals that the policy lets pass; each is asked about behind
  -- those before it
  induction passed generalizing earlier progress memory with
  | nil => rwa [List.append_nil]
  | cons residual passed ih =>
      obtain ⟨going, rest⟩ := goes
      obtain ⟨_, next⟩ := tracks.asked residual
      rw [List.append_cons]
      exact ih (next going) rest

theorem Tracks.lets_pass [StrictOrder α] {passed : List α} {progress : Progress α}
    {memory : Option (Best α)} (tracks : criteria.Tracks [] progress memory)
    (goes : GoesOn (.residual criteria.stallWindow) progress memory passed) :
    criteria.LetsPass passed := by
  rintro before residual after rfl
  obtain ⟨first, going, _⟩ := goes_on_append goes
  obtain ⟨ruling, _⟩ := (tracks.goes_on first).asked residual
  rw [List.nil_append] at ruling
  generalize verdict _ _ residual _ = answer at going ruling
  obtain ⟨state, _⟩ := answer
  cases state with
  | iterating => exact ruling
  | converged | maxIteration | diverged | stalled => cases going

omit [Arithmetic α] in
theorem split_last {residuals : List α} (some : residuals ≠ []) :
    ∃ before residual, residuals = before ++ [residual] :=
  ⟨_, _, (List.dropLast_append_getLast some).symm⟩

theorem LetsPass.length_lt {passed : List α} (pass : criteria.LetsPass passed) :
    passed.length < max 1 criteria.maxIterations.toNat := by
  by_cases start : passed = []
  · simp [start]
  · obtain ⟨before, residual, rfl⟩ := split_last start
    obtain _ | _ | _ | _ | ⟨_, counting, _, _⟩ := pass before residual [] rfl
    unfold Exhausted at counting
    rw [List.length_append, List.length_singleton]
    omega

end Criteria

namespace Solver

section Forgetting

variable {window : Option UInt32} {progress : Progress α}

theorem verdict_forgets (start : progress.iterations = 0) (residual : α)
    (memory memory' : Option (Best α)) :
    verdict (.residual window) progress residual memory =
      verdict (.residual window) progress residual memory' := by
  have first : progress.iterations + 1 ≤ 1 := by omega
  unfold verdict Policy.residual
  simp only [if_pos first]

abbrev Fresh (μ : Type) (left right : SolveScope α μ) : Prop :=
  SolveScope.Beside (fun _ _ => True) left right

variable [SquareRoot α] (solver : Solver α) (matrix : Matrix α) (request : Request α) (sweep : Sweep)
  (origin : ScratchOrigin) (remaining : Nat) (launcher : Launcher) (history : Array α)

theorem judge_forgets (start : progress.iterations = 0) (answer : α × Launcher)
    {left right : SolveScope α (Option (Best α))} (fresh : Fresh _ left right) :
    solver.judge matrix (.residual window) sweep origin remaining progress history answer left =
      solver.judge matrix (.residual window) sweep origin remaining progress history answer right := by
  obtain ⟨device, statistics, memory⟩ := left
  obtain ⟨_, _, memory'⟩ := right
  obtain ⟨rfl, rfl, _⟩ := fresh
  have asked : ∀ memory : Option (Best α),
      (SolveM.query (.residual window) (observed progress answer.1).iterations answer.1
        (observed progress answer.1) : SolveM α (Option (Best α)) SolveState)
          ⟨device, statistics, memory⟩ =
        .done (.ok (verdict (.residual window) progress answer.1 memory).1,
          ⟨device, statistics, (verdict (.residual window) progress answer.1 memory).2⟩) :=
    fun _ => rfl
  unfold judge
  dsimp only
  rw [meet_of_done (asked memory), meet_of_done (asked memory'),
    verdict_forgets start answer.1 memory memory']

theorem fresh_iterate (start : progress.iterations = 0) :
    Agree (Fresh _) Eq
      (solver.iterate matrix (.residual window) sweep origin remaining launcher progress history)
      (solver.iterate matrix (.residual window) sweep origin remaining launcher progress history) := by
  cases remaining with
  | zero => exact .ofThrow _
  | succ remaining =>
      rw [iterate_succ]
      apply (beside_sweep_once solver matrix sweep launcher).ofBind
      rintro answer _ rfl
      intro left right fresh
      rw [solver.judge_forgets matrix sweep origin remaining history start answer fresh]
      -- behind the first question the two are one program
      apply (Collective.related_refl _).mono
      rintro ⟨result, scope⟩ _ rfl
      exact ⟨.refl result, rfl, rfl, trivial⟩

theorem fresh_solve : Agree (Fresh _) Eq (solver.solve matrix request (.residual window))
    (solver.solve matrix request (.residual window)) := by
  rw [solve_eq]
  apply (SolveM.beside_report _).ofBind
  intro _ _ _
  apply Agree.ofGet
  intro left right fresh
  rw [fresh.device]
  apply (Agree.ofRefusal _).ofBind
  intro _ _ _
  apply (beside_ends_at_once solver request).ofBind
  rintro now _ rfl
  apply Agree.ofIte
  · apply (SolveM.beside_record_solve _).ofBind
    intro _ _ _
    exact .ofIte ((SolveM.beside_report _).ofBind fun _ _ _ => .ofPure rfl) (.ofPure rfl)
  · apply (beside_scratch _ _).ofBind
    rintro ⟨previous, origin⟩ _ rfl
    apply (SolveM.beside_on_device _).ofBind
    intro _ _ _
    apply (beside_prepare_sweep solver request previous).ofBind
    rintro sweep _ rfl
    exact solver.fresh_iterate matrix sweep origin _ _ _ rfl

end Forgetting

def criteria (solver : Solver α) (request : Request α) (window : Option UInt32) : Criteria α where
  precision := solver.config.precision
  norm := request.norm
  maxIterations := solver.config.maxIterations
  stallWindow := window

def begins (solver : Solver α) (request : Request α) : Progress α :=
  .start solver.name solver.config.verbosity solver.config.maxIterations solver.config.precision
    request.norm

variable [SquareRoot α]

def loop (solver : Solver α) (matrix : Matrix α) (request : Request α) {μ : Type}
    (policy : Policy α μ) (sweep : Sweep) (origin : ScratchOrigin) (launcher : Launcher) :
    SolveM α μ (Outcome α) :=
  solver.iterate matrix policy sweep origin iterationLimit launcher (solver.begins request) #[]

section Ending

open Criteria

variable [StrictOrder α] {solver : Solver α} {matrix : Matrix α} {request : Request α}
  {window : Option UInt32} {sweep : Sweep} {origin : ScratchOrigin} {launcher : Launcher}
  {scope : SolveScope α (Option (Best α))}
  {finished : Except (Failure α) (Outcome α) × SolveScope α (Option (Best α))}

omit [SquareRoot α] in
/-- What is remembered behind some residuals is the least of them and where it came first, so
that the iterations since then can be counted. -/
theorem heard_best {passed : List α} (goes : GoesOn (.residual window) (solver.begins request)
    scope.memory passed) {before after : List α} (split : passed = before ++ after)
    (some : before ≠ []) :
    ∃ best, (heard (.residual window) (solver.begins request) scope.memory before).2 =
        Option.some best ∧
      FirstLeast before best.residual best.iteration ∧ best.iteration ≤ before.length := by
  have start : (solver.criteria request window).Tracks [] (solver.begins request) scope.memory :=
    tracks_start ..
  subst split
  obtain ⟨first, _⟩ := goes_on_append goes
  obtain ⟨best, held, least⟩ := (start.goes_on first).best some
  exact ⟨best, held, least, least.iteration_le⟩

theorem loop_ends
    (ends : (solver.loop matrix request (.residual window) sweep origin launcher scope).Ends
      finished) :
    ∃ earlier final reached, Sweeps solver matrix sweep launcher scope earlier final reached ∧
      GoesOn (.residual window) (solver.begins request) scope.memory earlier ∧
      (heard (.residual window) (solver.begins request) scope.memory earlier).2 = reached.memory ∧
      (solver.criteria request window).LetsPass earlier ∧
      ((∃ failure, finished.1 = .error failure ∧
          (solver.sweepOnce matrix sweep final reached).Ends (.error failure, finished.2)) ∨
        ∃ residual next after outcome, finished.1 = .ok outcome ∧
          (solver.sweepOnce matrix sweep final reached).Ends (.ok (residual, next), after) ∧
          (solver.criteria request window).Ruled earlier residual outcome) := by
  obtain ⟨earlier, final, reached, _, sweeps, goes, remembered, concludes⟩ :=
    iterate_ends iterationLimit ends
  have start : (solver.criteria request window).Tracks [] (solver.begins request) scope.memory :=
    tracks_start ..
  have pass := start.lets_pass goes
  have few := pass.length_lt
  have bound : (solver.criteria request window).maxIterations.toNat ≤ iterationLimit :=
    Nat.le_sub_one_of_lt (UInt32.toNat_lt _)
  have counted : 1 ≤ iterationLimit := by decide
  refine ⟨earlier, final, reached, sweeps, goes, remembered, pass, ?_⟩
  -- the counter has room for the next sweep, since what has passed is short
  have room : iterationLimit - earlier.length = iterationLimit - earlier.length - 1 + 1 := by omega
  rw [room] at concludes
  have behind := start.goes_on goes
  rw [List.nil_append] at behind
  cases concludes with
  | failed failing => exact .inl ⟨_, rfl, failing⟩
  | stopped swept alike memory terminal =>
      rename_i residual next after last
      rw [← remembered] at terminal ⊢
      obtain ⟨ruling, _⟩ := behind.asked residual
      have count := congrArg (· + 1) behind.iterations
      refine .inr ⟨residual, next, after, _, rfl, swept, ⟨?_, count, ?_, ?_, terminal, ruling, rfl⟩⟩
      · simp [stopped]
      · exact count.trans_le few
      · exact behind.initial_observed residual

/-- Under the default policy a loop ends with the first residual that meets one of the
conditions, and the state is that of the first condition it meets: every earlier residual
meets none, all residuals are reported, and neither the iteration counter nor the
difference to the best iteration leaves its range. What the policy remembers of other solves
changes neither the calls nor the answer. -/
theorem residual_policy_decides (solver : Solver α) (matrix : Matrix α) (request : Request α)
    (window : Option UInt32) :
    (∀ sweep origin launcher scope finished,
      (solver.loop matrix request (.residual window) sweep origin launcher scope).Ends finished →
      ∃ earlier final reached, Sweeps solver matrix sweep launcher scope earlier final reached ∧
        (solver.criteria request window).LetsPass earlier ∧
        (∀ before after, earlier = before ++ after → before ≠ [] → ∃ best,
          (heard (.residual window) (solver.begins request) scope.memory before).2 = some best ∧
            FirstLeast before best.residual best.iteration ∧ best.iteration ≤ before.length) ∧
        (heard (.residual window) (solver.begins request) scope.memory earlier).2 =
          reached.memory ∧
        ((∃ failure, finished.1 = .error failure ∧
            (solver.sweepOnce matrix sweep final reached).Ends (.error failure, finished.2)) ∨
          ∃ residual next after outcome, finished.1 = .ok outcome ∧
            (solver.sweepOnce matrix sweep final reached).Ends (.ok (residual, next), after) ∧
            (solver.criteria request window).Ruled earlier residual outcome)) ∧
    (∀ scope outcome last,
      (solver.solve matrix request (.residual window) scope).Ends (.ok outcome, last) →
      outcome = nothingToSolve ∨ ∃ earlier residual,
        (solver.criteria request window).LetsPass earlier ∧
          (solver.criteria request window).Ruled earlier residual outcome) ∧
    ∀ device statistics memory memory', Collective.Related
      (fun left right => left.1 = right.1 ∧ left.2.device = right.2.device ∧
        left.2.statistics = right.2.statistics)
      (solver.solve matrix request (.residual window) ⟨device, statistics, memory⟩)
      (solver.solve matrix request (.residual window) ⟨device, statistics, memory'⟩) := by
  refine ⟨fun sweep origin launcher scope finished ends => ?_, fun scope outcome last ends => ?_,
    fun device statistics memory memory' => ?_⟩
  · obtain ⟨earlier, final, reached, sweeps, goes, remembered, pass, decided⟩ := loop_ends ends
    exact ⟨earlier, final, reached, sweeps, pass, fun _ _ split some => heard_best goes split some,
      remembered, decided⟩
  · obtain rfl | ⟨sweep, origin, entry, looped⟩ := solve_ends ends
    · exact .inl rfl
    · obtain ⟨earlier, _, _, _, _, _, pass, ⟨_, failed, _⟩ | ⟨residual, _, _, _, same, _, ruled⟩⟩ :=
        loop_ends (show (solver.loop matrix request (.residual window) sweep origin
          (.ofMode solver.config.launch) entry).Ends (.ok outcome, last) from looped)
      · cases failed
      · cases same
        exact .inr ⟨earlier, residual, pass, ruled⟩
  · apply (fresh_solve solver matrix request ⟨device, statistics, memory⟩
      ⟨device, statistics, memory'⟩ ⟨rfl, rfl, trivial⟩).mono
    rintro ⟨result, left⟩ ⟨result', right⟩ ⟨same, fresh⟩
    refine ⟨?_, fresh.device, fresh.statistics⟩
    cases same with
    | ok equal => exact congrArg Except.ok equal
    | error failure => rfl

/-- The equation `x = 2`, from `x = 1`. All squares are 0 or 1, so that each is its own root. -/
def unitRowDevice : Device ℚ :=
  ⟨.narrowest, #[#[1], #[1], #[2], #[1], #[0], #[0], #[0]], {}, #[]⟩

def unitRowSolve (memory : Option (Best ℚ)) :
    Collective ℚ (Except (Failure ℚ) (Outcome ℚ) × SolveScope ℚ (Option (Best ℚ))) :=
  @solve ℚ _ _ ⟨id⟩ singleRowSolver ⟨1, 1, 1, #[1], #[], #[], #[0, 0], none⟩
    ⟨⟨2⟩, ⟨3⟩, 1, some ⟨4⟩⟩ (.residual none) ⟨unitRowDevice, {}, memory⟩

/-- The policy still remembers a residual that this solve never comes to. -/
theorem unit_row_decided : ∃ outcome last,
    unitRowSolve (some ⟨-1, 7⟩) = .done (.ok outcome, last) ∧ outcome.history = #[1, 0] ∧
      Criteria.Ruled ⟨1.0e-5, 1, 10000, none⟩ [1] 0 outcome := by
  have ran : (unitRowSolve (some ⟨-1, 7⟩)).answer?.map Outcome.history = some #[1, 0] := by
    decide +kernel
  obtain ⟨outcome, answered, history⟩ := Option.map_eq_some_iff.mp ran
  obtain ⟨last, ended⟩ := Collective.done_of_answer answered
  have ends : (unitRowSolve (some ⟨-1, 7⟩)).Ends (.ok outcome, last) := ended ▸ .done _
  obtain ⟨_, decided, _⟩ := @residual_policy_decides ℚ _ ⟨id⟩ _ singleRowSolver
    ⟨1, 1, 1, #[1], #[], #[], #[0, 0], none⟩ ⟨⟨2⟩, ⟨3⟩, 1, some ⟨4⟩⟩ none
  rcases decided _ outcome last ends with rfl | ⟨earlier, residual, _, ruled⟩
  · cases history
  · obtain ⟨rfl, rfl⟩ : earlier = [1] ∧ residual = 0 := by
      have listed : earlier ++ [residual] = [1] ++ [0] :=
        congrArg Array.toList (ruled.history.symm.trans history)
      obtain ⟨same, last⟩ := List.append_inj' listed rfl
      exact ⟨same, List.singleton_inj.mp last⟩
    exact ⟨outcome, last, ended, history, ruled⟩

end Ending
end Solver
end Relaxation

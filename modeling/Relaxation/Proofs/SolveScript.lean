import Relaxation.Proofs.HaloLoop
import Relaxation.Proofs.ResidualLoop
import Relaxation.Proofs.Script

/-!
The script of a solve. Which calls a rank makes, and what it reports, depends on its
configuration, on the norm and on the totals it is told; its matrix and vectors have a say
only in what it adds, and in whether it fails.
-/

namespace Relaxation

variable {α β γ δ ζ ε σ μ : Type}

namespace Script

def bind : Script α δ → (δ → Script α ζ) → Script α ζ
  | .stop none, _ => .stop none
  | .stop (some shown), scripts => scripts shown
  | .sum next, scripts => .sum fun total => (next total).bind scripts
  | .exchange next, scripts => .exchange (next.bind scripts)

def behind (exchanging : Bool) (script : Script α δ) : Script α δ :=
  if exchanging then .exchange script else script

theorem behind_bind (exchanging : Bool) (shown : δ) (script : Script α ζ) :
    ((Script.stop (some shown)).behind exchanging).bind (fun _ => script) =
      script.behind exchanging := by
  cases exchanging <;> rfl

end Script

/-- What there is to see of an answer. A failure shows nothing. -/
def answers (view : β → δ) (finished : Except ε β × σ) : Option δ :=
  match finished.1 with
  | .ok answer => some (view answer)
  | .error _ => none

theorem Follows.bind {view : β → Option δ} {view' : γ → Option ζ} {program : Collective α β}
    {script : Script α δ} {next : β → Collective α γ} {scripts : δ → Script α ζ}
    (follows : Follows view program script)
    (goes : ∀ result shown, view result = some shown → Follows view' (next result) (scripts shown))
    (fails : ∀ result, view result = none →
      ∃ after, next result = .done after ∧ view' after = none) :
    Follows view' (program.bind next) (script.bind scripts) := by
  induction follows with
  | failed lost =>
      obtain ⟨after, ended, lost⟩ := fails _ lost
      rw [Collective.bind, ended]
      exact .failed lost
  | stop result =>
      rw [Collective.bind]
      cases holds : view result with
      | none =>
          obtain ⟨after, ended, lost⟩ := fails _ holds
          rw [ended]
          exact .failed lost
      | some shown => exact goes result shown holds
  | sum _ ih => exact .sum ih
  | exchange _ unanswered ih =>
      refine .exchange ih fun fault filled => ?_
      obtain ⟨result, ended, lost⟩ := unanswered fault filled
      obtain ⟨after, ended', lost⟩ := fails result lost
      exact ⟨after, by rw [ended, Collective.bind, ended'], lost⟩

theorem follows_done {finished : Except ε β × σ} {view : β → δ} {shown : δ}
    (same : ∀ value, finished.1 = .ok value → view value = shown) :
    Follows (answers view) (.done finished : Collective α _) (.stop (some shown)) := by
  obtain ⟨answer, after⟩ := finished
  cases answer with
  | error failure => exact .failed rfl
  | ok value => exact same value rfl ▸ .stop _

section Stateful

variable {first : ExceptT ε (StateT σ (Collective α)) β}
  {next : β → ExceptT ε (StateT σ (Collective α)) γ} {before : σ} {view : γ → ζ}
  {script : Script α ζ}

theorem follows_silent {finished : Except ε β × σ} (ran : first before = .done finished)
    (rest : ∀ value, finished.1 = .ok value →
      Follows (answers view) (next value finished.2) script) :
    Follows (answers view) ((first >>= next) before) script := by
  rw [meet_bind, ran]
  obtain ⟨answer, after⟩ := finished
  cases answer with
  | error failure => exact .failed rfl
  | ok value => exact rest value rfl

theorem follows_meet {script : Script α β} {scripts : β → Script α ζ}
    (follows : Follows (answers id) (first before) script)
    (rest : ∀ value after, Follows (answers view) (next value after) (scripts value)) :
    Follows (answers view) ((first >>= next) before) (script.bind scripts) := by
  rw [meet_bind]
  refine follows.bind ?_ ?_
  · rintro ⟨answer, after⟩ value holds
    cases answer with
    | error => cases holds
    | ok => exact Option.some.inj holds ▸ rest _ after
  · rintro ⟨answer, after⟩ lost
    cases answer with
    | error failure => exact ⟨_, rfl, rfl⟩
    | ok => cases lost

end Stateful

inductive Matrix.Exchanges (matrix : Matrix α) : Bool → Prop where
  | never (whole : matrix.halo = none) : Exchanges matrix false
  | always {halo : Halo} {rank ranks : Nat} (present : matrix.halo = some halo)
      (member : halo.communicator = .member rank ranks) : Exchanges matrix true

namespace Matrix

variable {matrix : Matrix α} {exchanging : Bool}

theorem follows_refresh (exchanges : matrix.Exchanges exchanging) (input : Buffer)
    (device : Device α) :
    Follows (answers id) (matrix.refresh input device)
      ((Script.stop (some ())).behind exchanging) := by
  cases exchanges with
  | never whole =>
      rw [refresh_alone whole]
      exact .stop (_, device)
  | @always halo rank ranks present member =>
      by_cases long : matrix.rows * halo.blockSize ≤ (device.contents input).size
      · rw [refresh_member present member long]
        exact .exchange (fun filled => .stop (_, _)) fun fault filled => ⟨_, rfl, rfl⟩
      · have short : halo.sync (device.contents input) matrix.rows =
            .done (.error .outOfRange, device.contents input) := by
          unfold Halo.sync
          dsimp only
          rw [if_pos (Nat.lt_of_not_le long)]
          rfl
        unfold refresh
        rw [present]
        change Follows _ (((liftM (halo.sync (device.contents input) matrix.rows) :
          Operation α (Except Fault Unit × Array α)) >>= _) device) _
        rw [short]
        exact .failed rfl

theorem follows_apply [Arithmetic α] (exchanges : matrix.Exchanges exchanging)
    (input output : Buffer) (device : Device α) :
    Follows (answers id) (matrix.applyOffDiagonal input output device)
      ((Script.stop (some ())).behind exchanging) := by
  unfold applyOffDiagonal
  refine follows_silent rfl fun _ _ => ?_
  refine follows_silent rfl fun current _ => ?_
  dsimp only
  split
  · exact .failed rfl
  · rw [← Script.behind_bind]
    exact follows_meet (follows_refresh exchanges input _) fun _ _ => follows_done fun _ _ => rfl

end Matrix

namespace SolveM

variable {next : β → SolveM α μ γ} {scope : SolveScope α μ} {view : γ → δ}

theorem follows_on_device {operation : Operation α β} {script : Script α β}
    {scripts : β → Script α δ} (follows : Follows (answers id) (operation scope.device) script)
    (rest : ∀ value device,
      Follows (answers view) (next value { scope with device := device }) (scripts value)) :
    Follows (answers view) ((onDevice operation >>= next) scope) (script.bind scripts) := by
  have lifted : (onDevice operation : SolveM α μ β) scope = (operation scope.device).bind
      fun answer => .done (answer.1, { scope with device := answer.2 }) := rfl
  rw [meet_bind, lifted, Collective.bind_assoc]
  refine follows.bind ?_ ?_
  · rintro ⟨answer, device⟩ value holds
    cases answer with
    | error => cases holds
    | ok => exact Option.some.inj holds ▸ rest _ device
  · rintro ⟨answer, device⟩ lost
    cases answer with
    | error failure => exact ⟨_, rfl, rfl⟩
    | ok => cases lost

theorem follows_call {call : DeviceM α β} {script : Script α δ}
    (rest : ∀ value device,
      Follows (answers view) (next value { scope with device := device }) script) :
    Follows (answers view) ((SolveM.call call >>= next) scope) script :=
  follows_silent (call_run rfl) fun value _ => rest value _

theorem follows_total {communicator : Communicator} {rank ranks : Nat}
    (member : communicator = .member rank ranks) {value : α} {next : α → SolveM α μ γ}
    {script : α → Script α δ}
    (rest : ∀ total, Follows (answers view) (next total scope) (script total)) :
    Follows (answers view) (((liftM (Collective.allReduceSum communicator value) : SolveM α μ α) >>=
      next) scope) (.sum script) := by
  rw [member]
  exact .sum rest

end SolveM

namespace Solver

structure Common (α : Type) where
  state : SolveState
  iterations : Nat
  residual : α
  initialResidual : Option α
  history : Array α
  /-- Whether the solve has ended before its loop. -/
  atOnce : Bool

def common (outcome : Outcome α) : Common α where
  state := outcome.state
  iterations := outcome.iterations
  residual := outcome.residual
  initialResidual := outcome.initialResidual
  history := outcome.history
  atOnce := outcome.scratch.isNone

variable [Arithmetic α] [SquareRoot α]

/-- The calls of a loop. Where its vectors lie makes no difference to it. -/
def loopScript (exchanging : Bool) (window : Option UInt32) :
    Nat → Progress α → Array α → Option (Best α) → Script α (Common α)
  | 0, _, _, _ => .stop none
  | remaining + 1, progress, history, memory => Script.behind exchanging <| .sum fun total =>
    let residual := SquareRoot.root total
    let judged := verdict (.residual window) progress residual memory
    if judged.1.terminal then
      .stop (some (common (stopped .allocated progress history residual judged.1)))
    else
      loopScript exchanging window remaining (observed progress residual) (history.push residual)
        judged.2

def solveScript (exchanging : Bool) (config : Config α) (norm : α) (window : Option UInt32) :
    Script α (Common α) :=
  let loop := loopScript exchanging window iterationLimit
    (.start "" config.verbosity config.maxIterations config.precision norm) #[] none
  if Arithmetic.le norm zeroNorm then
    .sum fun total =>
      if Arithmetic.lt zeroNorm (SquareRoot.root total) then loop
      else .stop (some (common nothingToSolve))
  else
    loop

section Shown

variable {exchanging : Bool} {window : Option UInt32} {shown : Common α}

theorem loop_script_shows {remaining : Nat} {progress : Progress α} {history : Array α}
    {memory : Option (Best α)}
    (shows : (loopScript exchanging window remaining progress history memory).Shows (some shown)) :
    shown.atOnce = false := by
  induction remaining generalizing progress history memory with
  | zero => cases shows
  | succ remaining ih =>
      have swept : ∀ {script : α → Script α (Common α)},
          ((Script.sum script).behind exchanging).Shows (some shown) →
            ∃ total, (script total).Shows (some shown) := by
        intro script shows
        cases exchanging with
        | false =>
            obtain _ | ⟨total, rest⟩ := shows
            exact ⟨total, rest⟩
        | true =>
            obtain _ | _ | ⟨_ | ⟨total, rest⟩⟩ := shows
            exact ⟨total, rest⟩
      obtain ⟨total, rest⟩ := swept shows
      dsimp only at rest
      split at rest
      · cases rest
        rfl
      · exact ih rest

theorem at_once_calls {config : Config α} {norm : α} {totals : Nat → α} {rounds : Nat}
    (stopped : (solveScript exchanging config norm window).after totals rounds = .stop (some shown))
    (atOnce : shown.atOnce = true) :
    (solveScript exchanging config norm window).calls totals rounds <+: [.sum] := by
  have shows : ∀ first, first ≤ rounds →
      ((solveScript exchanging config norm window).after totals first).Shows (some shown) :=
    fun first before => .of_after before (stopped ▸ .stop _)
  unfold solveScript at stopped shows ⊢
  by_cases zero : Arithmetic.le norm zeroNorm = true
  · simp only [if_pos zero] at stopped shows ⊢
    cases rounds with
    | zero => cases stopped
    | succ rounds =>
        have one : 1 ≤ rounds + 1 := Nat.succ_le_succ (Nat.zero_le rounds)
        by_cases needed : Arithmetic.lt zeroNorm (SquareRoot.root (totals 0)) = true
        · have loops := shows 1 one
          simp only [Script.after, Script.next, if_pos needed] at loops
          rw [loop_script_shows loops] at atOnce
          cases atOnce
        · have ends : ∀ loop : Script α (Common α), (Script.sum fun total =>
              if Arithmetic.lt zeroNorm (SquareRoot.root total) = true then loop
              else .stop (some (common nothingToSolve))).after totals 1 =
                .stop (some (common nothingToSolve)) := fun _ => if_neg needed
          rw [(Script.after_stop (ends _) one).2]
          exact List.prefix_refl _
  · simp only [if_neg zero] at shows
    rw [loop_script_shows (shows 0 (Nat.zero_le _))] at atOnce
    cases atOnce

end Shown

variable {solver : Solver α} {matrix : Matrix α} {exchanging : Bool} {rank ranks : Nat}
  {window : Option UInt32} {scope : SolveScope α (Option (Best α))}

theorem follows_sweep (member : solver.communicator = .member rank ranks)
    (exchanges : matrix.Exchanges exchanging) (sweep : Sweep) (launcher : Launcher)
    {next : α × Launcher → SolveM α μ γ} {scope : SolveScope α μ} {view : γ → δ}
    {script : α → Script α δ}
    (rest : ∀ total launcher device, Follows (answers view)
      (next (SquareRoot.root total, launcher) { scope with device := device }) (script total)) :
    Follows (answers view) ((solver.sweepOnce matrix sweep launcher >>= next) scope)
      (Script.behind exchanging (.sum script)) := by
  unfold sweepOnce
  simp only [bind_assoc, pure_bind]
  rw [← Script.behind_bind]
  refine SolveM.follows_on_device (Matrix.follows_apply exchanges ..) fun _ device => ?_
  refine follows_silent rfl fun launcher _ => ?_
  refine SolveM.follows_call fun squares device => ?_
  exact SolveM.follows_total member fun total => rest total launcher _

def unnamed (progress : Progress α) : Progress α :=
  { progress with name := "" }

theorem follows_iterate (member : solver.communicator = .member rank ranks)
    (exchanges : matrix.Exchanges exchanging) (sweep : Sweep) (origin : ScratchOrigin)
    (remaining : Nat) (launcher : Launcher) (progress : Progress α) (history : Array α)
    (scope : SolveScope α (Option (Best α))) :
    Follows (answers common) (solver.iterate matrix (.residual window) sweep origin remaining
      launcher progress history scope)
      (loopScript exchanging window remaining (unnamed progress) history scope.memory) := by
  -- the induction is on what the iteration counter can still count
  induction remaining generalizing launcher progress history scope with
  | zero => exact .failed rfl
  | succ remaining ih =>
      rw [iterate_succ]
      refine follows_sweep member exchanges sweep launcher fun total launcher device => ?_
      obtain ⟨asked, _, memory, shape⟩ := solver.judge_run matrix (.residual window) sweep origin
        remaining launcher progress history (SquareRoot.root total) { scope with device := device }
      have alike : verdict (.residual window) (unnamed progress) (SquareRoot.root total)
          scope.memory = verdict (.residual window) progress (SquareRoot.root total) scope.memory :=
        rfl
      dsimp only at shape memory ⊢
      rw [shape, alike]
      split
      · refine follows_done fun _ same => ?_
        cases same
        rfl
      · have goes := ih launcher (observed progress (SquareRoot.root total))
          (history.push (SquareRoot.root total)) asked
        rwa [memory] at goes

theorem loop_script_forgets (remaining : Nat) {progress : Progress α}
    (start : progress.iterations = 0) (history : Array α) (memory memory' : Option (Best α)) :
    loopScript exchanging window remaining progress history memory =
      loopScript exchanging window remaining progress history memory' := by
  cases remaining with
  | zero => rfl
  | succ remaining =>
      unfold loopScript
      simp only [verdict_forgets start _ memory memory']

omit [SquareRoot α] in
theorem scratch_done (auxiliary : Option Buffer) (needed : Nat) (scope : SolveScope α μ) :
    ∃ finished, (scratch auxiliary needed : SolveM α μ (Buffer × ScratchOrigin)) scope =
      .done finished ∧ finished.2.memory = scope.memory := by
  unfold scratch
  cases auxiliary with
  | none => exact ⟨_, rfl, rfl⟩
  | some buffer =>
      have asked : (get : SolveM α μ (SolveScope α μ)) scope = .done (.ok scope, scope) := rfl
      dsimp only
      rw [meet_of_done asked]
      split
      · exact ⟨_, rfl, rfl⟩
      · exact ⟨_, rfl, rfl⟩

theorem follows_relax (member : solver.communicator = .member rank ranks)
    (exchanges : matrix.Exchanges exchanging) (request : Request α)
    (scope : SolveScope α (Option (Best α))) :
    Follows (answers common) (solver.relax matrix request (.residual window) scope)
      (loopScript exchanging window iterationLimit (unnamed (solver.begins request)) #[]
        scope.memory) := by
  obtain ⟨finished, scratched, kept⟩ :=
    scratch_done request.auxiliary (matrix.columns * solver.kernel.blockSize) scope
  rw [relax_eq, ← kept]
  refine follows_silent scratched fun scratch _ => ?_
  refine SolveM.follows_call fun _ device => ?_
  obtain ⟨partials, residual, after, prepared, _⟩ := prepare_sweep_run solver request scratch.1
    { finished.2 with device := device }
  refine follows_silent prepared fun sweep _ => ?_
  exact follows_iterate member exchanges sweep scratch.2 iterationLimit _ (solver.begins request) #[] _

/-- Every rank of a group follows the script of its configuration and norm, whatever it
remembers, and whatever matrix and vectors it has. -/
theorem follows_solve (member : solver.communicator = .member rank ranks)
    (exchanges : matrix.Exchanges exchanging) (request : Request α)
    (scope : SolveScope α (Option (Best α))) :
    Follows (answers common) (solver.solve matrix request (.residual window) scope)
      (solveScript exchanging solver.config request.norm window) := by
  have loops : ∀ scope, Follows (answers common)
      (solver.conclude matrix request (.residual window) false scope)
      (loopScript exchanging window iterationLimit (.start "" solver.config.verbosity
        solver.config.maxIterations solver.config.precision request.norm) #[] none) := fun scope => by
    rw [← loop_script_forgets iterationLimit rfl #[] scope.memory]
    exact follows_relax member exchanges request scope
  have ends : ∀ scope, Follows (answers common)
      (solver.conclude matrix request (.residual window) true scope)
      (.stop (some (common nothingToSolve))) := fun scope => by
    obtain ⟨after, _, ran⟩ := conclude_at_once solver matrix request (.residual window) scope
    rw [ran]
    exact .stop _
  rw [solve_eq]
  refine follows_silent rfl fun _ _ => ?_
  refine follows_silent rfl fun current _ => ?_
  cases solver.validate matrix request current.device with
  | error refusal => exact .failed rfl
  | ok =>
      refine follows_silent rfl fun _ _ => ?_
      unfold endsAtOnce solveScript
      by_cases zero : Arithmetic.le request.norm zeroNorm = true
      · rw [if_pos zero]
        dsimp only
        rw [if_pos zero]
        unfold needsSolving
        simp only [bind_assoc, pure_bind]
        refine SolveM.follows_call fun values device => ?_
        refine SolveM.follows_total member fun total => ?_
        cases Arithmetic.lt zeroNorm (SquareRoot.root total) with
        | true => exact loops _
        | false => exact ends _
      · rw [if_neg zero]
        dsimp only
        rw [if_neg zero]
        exact follows_silent rfl fun now same => by cases same; exact loops _

end Solver
end Relaxation

import Mathlib.Algebra.BigOperators.Group.List.Basic
import Relaxation.Proofs.HaloFrame
import Relaxation.Proofs.Opening
import Relaxation.Proofs.Returns
import Relaxation.Proofs.Tally

/-!
What a device is asked for over a session. A solve that answers is charged by its launch mode and
its iterations, with one readback more if its norm counts as zero. A solve that is refused is
charged nothing, whatever is done on the device before, between and after.
-/

namespace Relaxation

variable {α β γ μ σ : Type}

open Collective

namespace Counters

instance : Zero Counters :=
  ⟨{}⟩

instance : Add Counters where
  add first second :=
    ⟨first.dispatches + second.dispatches, first.readbacks + second.readbacks,
      first.captures + second.captures, first.replays + second.replays⟩

theorem zero_eq : (0 : Counters) = ⟨0, 0, 0, 0⟩ :=
  rfl

theorem mk_add_mk (dispatches readbacks captures replays dispatches' readbacks' captures'
    replays' : Nat) :
    (⟨dispatches, readbacks, captures, replays⟩ : Counters) +
      ⟨dispatches', readbacks', captures', replays'⟩ =
    ⟨dispatches + dispatches', readbacks + readbacks', captures + captures',
      replays + replays'⟩ :=
  rfl

instance : AddCommMonoid Counters where
  add_assoc := by
    rintro ⟨⟩ ⟨⟩ ⟨⟩
    simp only [mk_add_mk, Nat.add_assoc]
  zero_add := by
    rintro ⟨⟩
    simp only [zero_eq, mk_add_mk, Nat.zero_add]
  add_zero := by
    rintro ⟨⟩
    simp only [zero_eq, mk_add_mk, Nat.add_zero]
  add_comm := by
    rintro ⟨⟩ ⟨⟩
    simp only [mk_add_mk, Nat.add_comm]
  nsmul := nsmulRec

def dispatch : Counters :=
  { dispatches := 1 }

def readback : Counters :=
  { readbacks := 1 }

def capture : Counters :=
  { captures := 1 }

def replay : Counters :=
  { replays := 1 }

end Counters

/-- What the sweeps of a solve that answers are charged: two launches and a product each, or the
product and a replay of a graph that the first of them has captured. -/
def LaunchMode.charge : LaunchMode → Nat → Counters
  | .direct, sweeps => ⟨3 * sweeps, sweeps, 0, 0⟩
  | .graph, sweeps => ⟨sweeps, sweeps, min sweeps 1, sweeps⟩

namespace Launcher

def charge : Launcher → Nat → Counters
  | .direct => LaunchMode.direct.charge
  | .graph none => LaunchMode.graph.charge
  | .graph (some _) => fun sweeps => ⟨sweeps, sweeps, 0, sweeps⟩

def issued : Launcher → Counters
  | .direct => .dispatch + .dispatch
  | .graph none => .capture + .replay
  | .graph (some _) => .replay

inductive Next : Launcher → Launcher → Prop where
  | direct : Next .direct .direct
  | graph (captured : Option Graph) (known : Graph) : Next (.graph captured) (.graph (some known))

theorem charge_of_mode (mode : LaunchMode) : (ofMode mode).charge = mode.charge := by
  cases mode <;> rfl

theorem charge_zero (launcher : Launcher) : launcher.charge 0 = 0 := by
  match launcher with
  | .direct | .graph none | .graph (some _) => rfl

theorem charge_succ {launcher next : Launcher} (follows : Next launcher next) (sweeps : Nat) :
    launcher.charge (sweeps + 1) =
      .dispatch + launcher.issued + .readback + next.charge sweeps := by
  have once : min (sweeps + 1) 1 = 1 := Nat.min_eq_right (Nat.le_add_left 1 sweeps)
  cases follows with
  | direct =>
      simp only [charge, LaunchMode.charge, issued, Counters.dispatch, Counters.readback,
        Counters.mk_add_mk, Counters.mk.injEq, and_true]
      omega
  | graph captured known =>
      cases captured <;>
        simp only [charge, LaunchMode.charge, once, issued, Counters.dispatch, Counters.readback,
          Counters.capture, Counters.replay, Counters.mk_add_mk, Counters.mk.injEq, true_and] <;>
      omega

end Launcher

namespace Device

theorem counters_behind {rest : DeviceM α β} (keeps : Keeps counters rest)
    (step : Counters → Counters) (device : Device α) :
    ((do modify fun device => device.count step; rest : DeviceM α β) device).2.counters =
      step device.counters :=
  keeps (device.count step)

variable [Arithmetic α]

theorem keeps_counters_relax (sweep : Sweep) : Keeps counters (runRelax sweep : DeviceM α Unit) :=
  keeps_run_relax sweep fun _ _ => rfl

theorem keeps_counters_reduce (sweep : Sweep) : Keeps counters (runReduce sweep : DeviceM α Unit) :=
  keeps_run_reduce sweep fun _ _ => rfl

theorem counters_one_by_one {sweep : Sweep} {device after : Device α}
    (ran : Launcher.oneByOne sweep device = (.ok (), after)) :
    after.counters = device.counters + (.dispatch + .dispatch) := by
  have first : (launchRelax sweep device).2.counters = device.counters + .dispatch :=
    counters_behind (keeps_counters_relax sweep) _ device
  unfold Launcher.oneByOne at ran
  generalize relaxed : (launchRelax sweep : DeviceM α Unit) device = answer at first
  obtain ⟨outcome, middle⟩ := answer
  cases outcome with
  | error failure =>
      rw [bind_of_error relaxed] at ran
      cases ran
  | ok =>
      rw [bind_of_ok relaxed] at ran
      have second : (launchReduce sweep middle).2.counters = middle.counters + .dispatch :=
        counters_behind (keeps_counters_reduce sweep) _ middle
      rw [ran] at second
      rw [second, first, add_assoc]

theorem counters_replay (graph : Graph) (device : Device α) :
    (Device.replay graph device).2.counters = device.counters + .replay := by
  refine counters_behind (keeps_for_each (fun step => ?_) graph.steps) _ device
  cases step with
  | relax => exact keeps_counters_relax graph.sweep
  | reduce => exact keeps_counters_reduce graph.sweep

end Device

namespace Launcher

variable [Arithmetic α]

theorem issue_charged {launcher : Launcher} {sweep : Sweep} {device : Device α}
    (answered : (launcher.issue sweep device).1.1 = .ok ()) :
    Next launcher (launcher.issue sweep device).1.2 ∧
      (launcher.issue sweep device).2.counters = device.counters + launcher.issued := by
  have replayed : ∀ (known : Graph) (device : Device α),
      ((graph (some known)).issue sweep device).1.1 = .ok () →
      ((graph (some known)).issue sweep device).1.2 = graph (some known) ∧
        ((graph (some known)).issue sweep device).2.counters = device.counters + .replay := by
    intro known device answered
    rw [issue_captured] at answered ⊢
    exact ⟨by rw [answered]; rfl, Device.counters_replay known device⟩
  match launcher with
  | .direct =>
      rw [issue_direct] at answered ⊢
      exact ⟨.direct, Device.counters_one_by_one (Prod.ext answered rfl)⟩
  | .graph (some known) =>
      obtain ⟨same, counted⟩ := replayed known device answered
      rw [same]
      exact ⟨.graph _ _, counted⟩
  | .graph none =>
      rw [issue_fresh] at answered ⊢
      obtain ⟨same, counted⟩ := replayed _ _ answered
      rw [same]
      exact ⟨.graph _ _, counted.trans (add_assoc device.counters .capture .replay)⟩

end Launcher

/-- What `view` shows has grown by this cost if the program answers. -/
def Spends (view : σ → Counters) (cost : Counters)
    (program : ExceptT (Failure α) (StateT σ (Collective α)) β) : Prop :=
  ∀ before value after, (program before).Ends (.ok value, after) → view after = view before + cost

theorem Leaves.spends {view : σ → Counters}
    {program : ExceptT (Failure α) (StateT σ (Collective α)) β} (leaves : Leaves view program) :
    Spends view 0 program := fun before _ after ends =>
  (leaves before _ after ends).trans (add_zero _).symm

theorem Spends.ofBind {view : σ → Counters} {cost cost' : Counters}
    {first : ExceptT (Failure α) (StateT σ (Collective α)) β}
    {next : β → ExceptT (Failure α) (StateT σ (Collective α)) γ} (spends : Spends view cost first)
    (later : ∀ value, Spends view cost' (next value)) :
    Spends view (cost + cost') (first >>= next) := by
  intro before value last ends
  obtain ⟨between, after, reached, ends⟩ := meet_answers ends
  rw [later between after value last ends, spends before between after reached, add_assoc]

theorem Operation.spends_call {call : DeviceM α β} {cost : Counters}
    (counted : ∀ device, (call device).2.counters = device.counters + cost) :
    Spends Device.counters cost (Operation.call call) := by
  intro before value after ends
  have ran := Prod.ext_iff.mp (ends_done_iff.mp ends)
  rw [show after = (call before).2 from ran.2]
  exact counted before

namespace Matrix

variable [Arithmetic α]

theorem spends_apply (matrix : Matrix α) (input output : Buffer) :
    Spends Device.counters .dispatch (matrix.applyOffDiagonal input output) := by
  have counted : ∀ device : Device α,
      (matrix.multiply input output device).2.counters = device.counters + .dispatch := by
    refine Device.counters_behind (fun device => ?_) _
    rw [get_bind]
    generalize matrix.offDiagonalProduct _ _ = answer
    obtain ⟨outcome | fault, values⟩ := answer <;> rfl
  have refreshed : Spends Device.counters 0 (matrix.refresh input : Operation α Unit) :=
    (leaves_refresh fun _ _ => rfl).spends
  have claimed : Spends Device.counters 0 (Operation.call
      (Device.claim .operatorOutput output [input]) : Operation α Unit) :=
    (Operation.leaves_call (Device.keeps_claim _ _ _)).spends
  intro before value after ends
  obtain ⟨_, middle, passed, ends⟩ := meet_answers ends
  rw [← add_zero before.counters, ← claimed _ _ _ passed]
  obtain ⟨_, _, asked, ends⟩ := meet_answers ends
  cases ends_done_iff.mp asked
  dsimp only at ends
  split_ifs at ends
  · obtain ⟨_, _, refused, _⟩ := meet_answers ends
    cases ends_done_iff.mp refused
  · rw [← zero_add Counters.dispatch]
    exact refreshed.ofBind (fun _ => Operation.spends_call counted) _ _ _ ends

end Matrix

def SolveScope.counters (scope : SolveScope α μ) : Counters :=
  scope.device.counters

namespace SolveM

theorem spends_on_device {operation : Operation α β} {cost : Counters}
    (spends : Spends Device.counters cost operation) :
    Spends SolveScope.counters cost (onDevice operation : SolveM α μ β) := by
  intro before value after ends
  obtain ⟨⟨_, device⟩, reached, rest⟩ := ends_bind_iff.mp ends
  cases ends_done_iff.mp rest
  exact spends _ _ _ reached

theorem spends_call {call : DeviceM α β} {cost : Counters}
    (counted : ∀ device, (call device).2.counters = device.counters + cost) :
    Spends SolveScope.counters cost (SolveM.call call : SolveM α μ β) :=
  spends_on_device (Operation.spends_call counted)

theorem spends_issue [Arithmetic α] {launcher next : Launcher} {sweep : Sweep}
    {scope last : SolveScope α μ}
    (ends : ((issue launcher sweep : SolveM α μ Launcher) scope).Ends (.ok next, last)) :
    launcher.Next next ∧ last.counters = scope.counters + launcher.issued := by
  have charged := @Launcher.issue_charged α _ launcher sweep scope.device
  unfold issue at ends
  generalize launcher.issue sweep scope.device = issued at ends charged
  obtain ⟨⟨result, following⟩, device⟩ := issued
  cases result with
  | error failure => cases ends_done_iff.mp ends
  | ok =>
      cases ends_done_iff.mp ends
      exact charged rfl

end SolveM

namespace Solver

variable [Arithmetic α] [SquareRoot α] {solver : Solver α} {matrix : Matrix α}
  {policy : Policy α μ} {sweep : Sweep} {origin : ScratchOrigin} {launcher : Launcher}
  {request : Request α} {scope last : SolveScope α μ} {outcome : Outcome α}

omit [SquareRoot α] in
theorem spends_read_scalar (buffer : Buffer) :
    Spends SolveScope.counters .readback (SolveM.call (Device.readScalar buffer) : SolveM α μ α) :=
  SolveM.spends_call fun _ => rfl

theorem sweep_once_spends {residual : α} {next : Launcher}
    (ends : (solver.sweepOnce matrix sweep launcher scope).Ends (.ok (residual, next), last)) :
    launcher.Next next ∧
      last.counters = scope.counters + (.dispatch + launcher.issued + .readback) := by
  unfold sweepOnce at ends
  obtain ⟨_, applied, product, ends⟩ := meet_answers ends
  obtain ⟨_, launched, issued, ends⟩ := meet_answers ends
  obtain ⟨_, read, told, ends⟩ := meet_answers ends
  obtain ⟨_, _, summed, ends⟩ := meet_answers ends
  obtain ⟨_, _, _, same⟩ := lift_ends summed
  cases ends_done_iff.mp ends
  obtain ⟨follows, counted⟩ := SolveM.spends_issue issued
  refine ⟨follows, ?_⟩
  rw [same, spends_read_scalar _ _ _ _ told, counted,
    SolveM.spends_on_device (matrix.spends_apply _ _) _ _ _ product]
  simp only [add_assoc]

theorem iterate_spends (remaining : Nat) {progress : Progress α} {history : Array α}
    (ends : (solver.iterate matrix policy sweep origin remaining launcher progress history
      scope).Ends (.ok outcome, last)) :
    ∃ sweeps, outcome.iterations = progress.iterations + sweeps ∧
      outcome.history.size = history.size + sweeps ∧
      last.counters = scope.counters + launcher.charge sweeps := by
  -- the induction is on what the iteration counter can still count
  induction remaining generalizing launcher progress history scope with
  | zero => cases ends_done_iff.mp ends
  | succ remaining ih =>
      rw [iterate_succ] at ends
      obtain ⟨⟨residual, next⟩, swept, once, judged⟩ := meet_answers ends
      obtain ⟨follows, counted⟩ := sweep_once_spends once
      -- the rest of the loop begins with one sweep more, and with the launcher that this one left
      have more : ∀ sweeps, last.counters = swept.counters + next.charge sweeps →
          last.counters = scope.counters + launcher.charge (sweeps + 1) := by
        intro sweeps rest
        rw [rest, counted, Launcher.charge_succ follows, add_assoc]
      obtain ⟨state, answered, books⟩ | ⟨asked, same, ends⟩ := judge_ends judged
      · cases answered
        refine ⟨1, rfl, Array.size_push _, more 0 ?_⟩
        rw [Launcher.charge_zero, add_zero]
        exact congrArg Prod.fst books
      · obtain ⟨sweeps, iterations, size, charged⟩ := ih ends
        refine ⟨sweeps + 1, ?_, ?_, more sweeps ?_⟩
        · rw [iterations]
          exact Nat.add_right_comm _ 1 sweeps
        · rw [size, Array.size_push]
          exact Nat.add_right_comm _ 1 sweeps
        · rw [charged]
          exact congrArg (· + _) (congrArg Prod.fst same)

theorem relax_spends (ends : (solver.relax matrix request policy scope).Ends (.ok outcome, last)) :
    outcome.history.size = outcome.iterations ∧
      last.counters = scope.counters + solver.config.launch.charge outcome.iterations := by
  rw [relax_eq] at ends
  obtain ⟨_, _, supplied, ends⟩ := meet_answers ends
  unfold relaxOn at ends
  obtain ⟨_, _, copied, ends⟩ := meet_answers ends
  obtain ⟨_, prepared, preparing, ends⟩ := meet_answers ends
  have quiet : prepared.books = scope.books :=
    (books_prepare_sweep _ _ _ _ _ _ preparing).trans
      ((books_copy _ _ _ _ _ _ copied).trans (books_scratch _ _ _ _ _ supplied))
  obtain ⟨sweeps, iterations, size, charged⟩ := iterate_spends _ ends
  have counted : outcome.iterations = sweeps := iterations.trans (Nat.zero_add sweeps)
  refine ⟨size.trans iterations.symm, ?_⟩
  rw [charged, counted, Launcher.charge_of_mode]
  exact congrArg (· + _) (congrArg Prod.fst quiet)

theorem conclude_spends (now : Bool)
    (ends : (solver.conclude matrix request policy now scope).Ends (.ok outcome, last)) :
    outcome.history.size = outcome.iterations ∧
      last.counters = scope.counters + solver.config.launch.charge outcome.iterations := by
  unfold conclude at ends
  cases now with
  | true =>
      rw [if_pos rfl] at ends
      obtain ⟨answered, books⟩ := finish_ends ends
      cases answered
      have nothing : solver.config.launch.charge 0 = 0 := by
        rw [← Launcher.charge_of_mode, Launcher.charge_zero]
      refine ⟨rfl, (congrArg Prod.fst books).trans ?_⟩
      rw [show (nothingToSolve : Outcome α).iterations = 0 from rfl, nothing, add_zero]
      rfl
  | false =>
      rw [if_neg Bool.false_ne_true] at ends
      exact relax_spends ends

def looks (norm : α) : Counters :=
  if Arithmetic.le norm zeroNorm then .readback else 0

theorem ends_at_once_spends (solver : Solver α) (request : Request α) :
    Spends SolveScope.counters (looks request.norm)
      (solver.endsAtOnce request : SolveM α μ Bool) := by
  unfold endsAtOnce looks
  split
  · have read : Spends SolveScope.counters .readback
        (SolveM.call (Device.download request.rhs solver.owned) : SolveM α μ (Array α)) := by
      refine SolveM.spends_call (Device.counters_behind (.ofGet fun device => ?_) _)
      change ((if _ then _ else _ : DeviceM α (Array α)) device).2.counters = _
      split <;> rfl
    have asked := (read.ofBind fun values => ((Leaves.ofCollective (Collective.allReduceSum
      solver.communicator (Arithmetic.squares values.toList))).ofBind fun _ total _ _ =>
        Leaves.ofPure (Arithmetic.lt zeroNorm (SquareRoot.root total))).spends).ofBind
          fun some => (Leaves.ofPure !some).spends
    rw [add_zero, add_zero] at asked
    exact asked
  · exact (Leaves.ofPure false).spends

theorem solve_spends (ends : (solver.solve matrix request policy scope).Ends (.ok outcome, last)) :
    outcome.history.size = outcome.iterations ∧
      last.counters = scope.counters +
        (looks request.norm + solver.config.launch.charge outcome.iterations) := by
  cases checked : solver.validate matrix request scope.device with
  | error refusal =>
      rw [solve_refused policy checked] at ends
      cases ends_done_iff.mp ends
  | ok =>
      rw [solve_passed policy checked] at ends
      obtain ⟨now, asked, looked, ends⟩ := meet_answers ends
      obtain ⟨residuals, counted⟩ := conclude_spends now ends
      refine ⟨residuals, ?_⟩
      rw [counted, ends_at_once_spends solver request _ _ _ looked, add_assoc]
      rfl

end Solver

namespace Collective

theorem Answered.size {neighbors : List Neighbor} {owned ghost : Array α} {answer : Exchanged α}
    (answered : Answered neighbors owned ghost answer) : answer.2.size = ghost.size := by
  cases answered with
  | unsent => rfl
  | taken sent rank shared => exact (shared.collect_frame rank neighbors ghost).1

theorem Returns.always {good : β → Prop} {program : Collective α β} {result : β}
    (returns : program.Returns result) (always : program.Always good) : good result := by
  induction returns with
  | done => exact always.holds
  | sum total _ ih =>
      cases always with
      | sum rest => exact ih (rest total)
  | exchange answered _ ih =>
      cases always with
      | exchange rest => exact ih (rest _ answered.size)

end Collective

namespace Solver

variable [Arithmetic α] [SquareRoot α] {solver : Solver α} {matrix : Matrix α}
  {policy : Policy α μ} {request : Request α} {scope last : SolveScope α μ}

/-- With a column for each row there is room for the copy of the start vector, and no sweep is
refused behind it. -/
theorem unrefused_conclude (now : Bool) (covers : matrix.rows ≤ matrix.columns)
    (furnished : Furnished solver scope.device) (lent : Lent solver request scope.device)
    (rows : matrix.rows = solver.rows) (blockSize : matrix.blockSize = solver.kernel.blockSize) :
    (solver.conclude matrix request policy now scope).Always (Unrefused fun _ _ => True) := by
  cases now with
  | true =>
      obtain ⟨_, _, ended⟩ := conclude_at_once solver matrix request policy scope
      rw [ended]
      exact .done (.ok trivial)
  | false =>
      have relaxes := relax_relaxes policy scope furnished lent rows blockSize
      unfold conclude
      rw [if_neg Bool.false_ne_true]
      generalize solver.relax matrix request policy scope = program at relaxes ⊢
      cases relaxes with
      | looped provided =>
          exact unrefused_iterate policy _ _ _ _ provided (Launcher.serves_of_mode ..)
      | cramped narrow => exact absurd covers (Nat.not_le.mpr narrow)

theorem unrefused_solve (covers : matrix.rows ≤ matrix.columns)
    (furnished : Furnished solver scope.device) (lent : Lent solver request scope.device)
    (checked : solver.validate matrix request scope.device = .ok ()) :
    (solver.solve matrix request policy scope).Always (Unrefused fun _ _ => True) := by
  obtain ⟨asked, alike, _, opened⟩ := solve_opens policy checked
  obtain ⟨⟨rows, blockSize⟩, _⟩ := validate_ok_iff.mp checked
  have grown := Device.Extends.of_alike alike
  have concluded : ∀ now, (solver.conclude matrix request policy now asked).Always
      (Unrefused fun _ _ => True) := fun now =>
    unrefused_conclude now covers (furnished.of_extends grown) (lent.of_extends grown) rows
      blockSize
  rw [opened]
  split
  · exact (always_anything _).bind fun _ _ => concluded _
  · exact concluded false

/-- Only the checks of a solve refuse it, and they count nothing. -/
theorem refused_spends_nothing (covers : matrix.rows ≤ matrix.columns)
    (furnished : Furnished solver scope.device)
    (foreign : ∀ buffer ∈ request.buffers, scope.device.Holds buffer ∧
      buffer ∉ [solver.diagonal, solver.inverse]) {refusal : Refusal α}
    (returns : (solver.solve matrix request policy scope).Returns
      (.error (.refused refusal), last)) : last.counters = scope.counters := by
  cases checked : solver.validate matrix request scope.device with
  | error _ =>
      rw [solve_refused policy checked] at returns
      cases returns_done_iff.mp returns
      rfl
  | ok =>
      have unrefused := returns.always
        (unrefused_solve covers furnished (lent_of_validate checked foreign) checked)
      cases unrefused

end Solver

end Relaxation

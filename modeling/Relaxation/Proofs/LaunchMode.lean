import Relaxation.Proofs.Agreement
import Relaxation.Proofs.Device
import Relaxation.Proofs.Exact
import Relaxation.Proofs.Solve

/-!
Launching one by one and replaying a captured graph leave the same results. The
graph holds handles and no values, so every write between two launches reaches
it.
-/

namespace Relaxation

variable {α μ : Type} [Arithmetic α]

namespace Launcher

/-- A launcher that launches one by one beside one that has captured this sweep, or
nothing yet. -/
inductive Paired (sweep : Sweep) : Launcher → Launcher → Prop where
  | fresh : Paired sweep .direct (.graph none)
  | captured : Paired sweep .direct (.graph (some ⟨sweep, [.relax, .reduce]⟩))

theorem replay_eq (sweep : Sweep) :
    (Device.replay ⟨sweep, [.relax, .reduce]⟩ : DeviceM α Unit) = (do
      modify fun device => device.count fun counters =>
        { counters with replays := counters.replays + 1 }
      Device.runRelax sweep
      Device.runReduce sweep) := by
  simp only [Device.replay, List.forM, bind_pure_unit]

def oneByOne (sweep : Sweep) : DeviceM α Unit := do
  Device.launchRelax sweep
  Device.launchReduce sweep

theorem agree_replay (sweep : Sweep) :
    DeviceM.Agree Eq (oneByOne sweep : DeviceM α Unit)
      (Device.replay ⟨sweep, [.relax, .reduce]⟩) := by
  rw [replay_eq, ← bind_assoc]
  apply DeviceM.agree_bind
  · exact DeviceM.agree_bind (DeviceM.agree_modify fun _ _ alike => alike.count _ _)
      fun _ _ _ => Device.agree_run_relax sweep
  · intro _ _ _ left right alike
    -- only the launches called one by one count the second dispatch
    exact Device.agree_run_reduce sweep _ right
      (alike.count (fun counters => { counters with dispatches := counters.dispatches + 1 }) id)

def capturing (device : Device α) : Device α :=
  (device.report (.capturing Device.label)).count fun counters =>
    { counters with captures := counters.captures + 1 }

theorem issue_direct (sweep : Sweep) (device : Device α) :
    direct.issue sweep device = (((oneByOne sweep device).1, direct), (oneByOne sweep device).2) :=
  rfl

theorem issue_captured (sweep : Sweep) (known : Graph) (device : Device α) :
    (graph (some known)).issue sweep device =
      (((Device.replay known device).1, graph (keep known (Device.replay known device).1)),
        (Device.replay known device).2) :=
  rfl

theorem issue_fresh (sweep : Sweep) (device : Device α) :
    (graph none).issue sweep device =
      (graph (some ⟨sweep, [.relax, .reduce]⟩)).issue sweep (capturing device) :=
  rfl

/-- One issue of two paired launchers: they answer alike, leave the same buffers and
are paired again. A fault drops the graph, which makes the launcher fresh. -/
theorem issue_paired {sweep : Sweep} {first second : Launcher} (paired : Paired sweep first second)
    {left right : Device α} (alike : left.Alike right) :
    (first.issue sweep left).1.1 = (second.issue sweep right).1.1 ∧
      (first.issue sweep left).2.Alike (second.issue sweep right).2 ∧
      Paired sweep (first.issue sweep left).1.2 (second.issue sweep right).1.2 := by
  -- a fresh launcher replays too, once it has captured
  have replayed : ∀ right : Device α, left.Alike right →
      (direct.issue sweep left).1.1 =
          ((graph (some ⟨sweep, [.relax, .reduce]⟩)).issue sweep right).1.1 ∧
        (direct.issue sweep left).2.Alike
          ((graph (some ⟨sweep, [.relax, .reduce]⟩)).issue sweep right).2 ∧
        Paired sweep (direct.issue sweep left).1.2
          ((graph (some ⟨sweep, [.relax, .reduce]⟩)).issue sweep right).1.2 := by
    intro right alike
    obtain ⟨same, kept⟩ := agree_replay sweep left right alike
    rw [issue_direct, issue_captured]
    refine ⟨?_, kept, ?_⟩
    · generalize (oneByOne sweep left).1 = first at same
      generalize (Device.replay ⟨sweep, [.relax, .reduce]⟩ right).1 = second at same
      cases same with
      | ok equal => exact congrArg Except.ok equal
      | error failure => rfl
    · dsimp only
      generalize (Device.replay ⟨sweep, [.relax, .reduce]⟩ right).1 = outcome
      match outcome with
      | .ok _ => exact .captured
      | .error (.refused _) => exact .captured
      | .error (.faulted _) => exact .fresh
  cases paired with
  | fresh =>
      rw [issue_fresh]
      exact replayed _ ⟨alike.width, alike.buffers⟩
  | captured => exact replayed right alike

/-- Issues of one sweep, each after a write of the caller's own, with what every
call answers and the buffers it leaves. -/
def issueAll (sweep : Sweep) : List (Array (Array α) → Array (Array α)) → Launcher → Device α →
    List (Except (Failure α) Unit × Array (Array α)) × Device α
  | [], _, device => ([], device)
  | write :: rest, launcher, device =>
    let ((outcome, launcher), device) :=
      launcher.issue sweep { device with buffers := write device.buffers }
    let (later, last) := issueAll sweep rest launcher device
    ((outcome, device.buffers) :: later, last)

theorem issue_all_paired {sweep : Sweep} (writes : List (Array (Array α) → Array (Array α))) :
    ∀ {first second : Launcher}, Paired sweep first second →
      ∀ {left right : Device α}, left.Alike right →
        (issueAll sweep writes first left).1 = (issueAll sweep writes second right).1 := by
  induction writes with
  | nil =>
      intro first second paired left right alike
      rfl
  | cons write rest ih =>
      intro first second paired left right alike
      have written : Device.Alike { left with buffers := write left.buffers }
          { right with buffers := write right.buffers } :=
        ⟨alike.width, congrArg write alike.buffers⟩
      -- both launchers find what the caller has written, the graph holding no values
      have issued := issue_paired paired written
      unfold issueAll
      generalize first.issue sweep { left with buffers := write left.buffers } = before at issued ⊢
      generalize second.issue sweep { right with buffers := write right.buffers } = after
        at issued ⊢
      obtain ⟨⟨outcome, next⟩, device⟩ := before
      obtain ⟨⟨outcome', next'⟩, device'⟩ := after
      obtain ⟨equal, kept, paired'⟩ := issued
      dsimp only at equal kept paired' ⊢
      rw [equal, kept.buffers, ih paired' kept]

/-- A sweep whose replay cannot fault: a supported kernel on the device's own
geometry, and a residual to write to. -/
structure Sturdy (sweep : Sweep) (device : Device α) : Prop where
  positive : 0 < sweep.kernel.blockSize
  small : sweep.kernel.blockSize ≤ maxBlockSize
  geometry : sweep.geometry = device.geometry sweep.rows
  single : 0 < (device.contents sweep.residual).size

/-- A write of the caller's own that leaves a residual to write to. -/
def Spares (sweep : Sweep) (write : Array (Array α) → Array (Array α)) : Prop :=
  ∀ buffers, 0 < (buffers.getD sweep.residual.index #[]).size →
    0 < ((write buffers).getD sweep.residual.index #[]).size

omit [Arithmetic α] in
theorem Sturdy.of_single {sweep : Sweep} {left right : Device α} (sturdy : Sturdy sweep left)
    (width : right.width = left.width) (single : 0 < (right.contents sweep.residual).size) :
    Sturdy sweep right where
  positive := sturdy.positive
  small := sturdy.small
  geometry := by rw [sturdy.geometry, Device.geometry, Device.geometry, width]
  single := single

theorem replay_sturdy {sweep : Sweep} {device : Device α} (sturdy : Sturdy sweep device) :
    ∃ outcome after, Device.replay ⟨sweep, [.relax, .reduce]⟩ device = (outcome, after) ∧
      (∀ fault, outcome ≠ .error (.faulted fault)) ∧ Sturdy sweep after := by
  have width : Reduction.validWidth sweep.geometry.threadsPerBlock = true := by
    rw [sturdy.geometry]
    exact device.width.valid_width
  rw [replay_eq, modify_bind]
  generalize counted : device.count _ = ready
  have same : ready.width = device.width ∧ ready.sizes = device.sizes := by
    subst counted
    exact ⟨rfl, rfl⟩
  obtain ⟨sameWidth, sameSizes⟩ := same
  have kept : ∀ after : Device α, after.width = ready.width → after.sizes = device.sizes →
      Sturdy sweep after := fun after width sizes =>
    sturdy.of_single (width.trans sameWidth)
      (Device.size_contents_of_sizes sizes sweep.residual ▸ sturdy.single)
  rcases Device.run_relax_cases ready sweep sturdy.positive sturdy.small width with
    ⟨refusal, ran⟩ | ⟨workspace, ran, apart, launched⟩
  · -- a refused relaxation has written nothing, and the reduction is not reached
    exact ⟨_, _, bind_of_error ran, (fun _ fault => nomatch fault), kept _ rfl sameSizes⟩
  have sizes := (Device.sizes_restore apart launched).trans sameSizes
  rw [bind_of_ok ran]
  by_cases overlap : sweep.residual = sweep.partials
  · exact ⟨_, _, Device.run_reduce_overlapping overlap, (fun _ fault => nomatch fault),
      kept _ rfl sizes⟩
  · have single : 0 < ((ready.restore sweep workspace).contents sweep.residual).size := by
      rw [Device.size_contents_of_sizes sizes]
      exact sturdy.single
    refine ⟨_, _, Device.run_reduce_ok overlap width single, (fun _ fault => nomatch fault),
      kept _ rfl ?_⟩
    rw [Device.sizes_store (by simp), sizes]

def Unfaulted (answers : List (Except (Failure α) Unit × Array (Array α))) : Prop :=
  ∀ answer ∈ answers, ∀ fault, answer.1 ≠ .error (.faulted fault)

omit [Arithmetic α] in
theorem keep_of_unfaulted {known : Graph} {outcome : Except (Failure α) Unit}
    (unfaulted : ∀ fault, outcome ≠ .error (.faulted fault)) : keep known outcome = some known := by
  match outcome, unfaulted with
  | .ok _, _ => rfl
  | .error (.refused _), _ => rfl
  | .error (.faulted fault), unfaulted => exact absurd rfl (unfaulted fault)

section Issues

variable {sweep : Sweep}

theorem captures_issue_all (known : Graph)
    (writes : List (Array (Array α) → Array (Array α))) :
    ∀ {device : Device α}, Unfaulted (issueAll sweep writes (graph (some known)) device).1 →
      (issueAll sweep writes (graph (some known)) device).2.counters.captures =
        device.counters.captures := by
  induction writes with
  | nil => exact fun _ => rfl
  | cons write rest ih =>
      intro device unfaulted
      unfold issueAll at unfaulted ⊢
      rw [issue_captured] at unfaulted ⊢
      dsimp only at unfaulted ⊢
      rw [keep_of_unfaulted (unfaulted _ List.mem_cons_self)] at unfaulted ⊢
      exact (ih fun answer member => unfaulted answer (List.mem_cons_of_mem _ member)).trans
        (Device.captures_replay ..)

theorem issue_all_sturdy (writes : List (Array (Array α) → Array (Array α)))
    (spare : ∀ write ∈ writes, Spares sweep write) :
    ∀ {device : Device α}, Sturdy sweep device →
      Unfaulted (issueAll sweep writes (graph (some ⟨sweep, [.relax, .reduce]⟩)) device).1 := by
  induction writes with
  | nil => exact fun _ _ member => nomatch member
  | cons write rest ih =>
      intro device sturdy
      have written : Sturdy sweep { device with buffers := write device.buffers } :=
        sturdy.of_single rfl (spare write List.mem_cons_self device.buffers sturdy.single)
      obtain ⟨outcome, after, ran, unfaulted, still⟩ := replay_sturdy written
      have answered := ih (fun other member => spare other (List.mem_cons_of_mem write member)) still
      unfold issueAll
      rw [issue_captured, ran]
      dsimp only
      rw [keep_of_unfaulted unfaulted]
      intro answer member
      rcases List.mem_cons.mp member with same | other
      · subst same
        exact unfaulted
      · exact answered answer other

theorem issue_all_fresh (write : Array (Array α) → Array (Array α))
    (rest : List (Array (Array α) → Array (Array α))) (device : Device α) :
    issueAll sweep (write :: rest) (graph none) device =
      issueAll sweep (write :: rest) (graph (some ⟨sweep, [.relax, .reduce]⟩))
        (capturing device) := by
  unfold issueAll
  rw [issue_fresh]
  rfl

/-- A fresh launcher captures the sweep at its first issue and, unless a call faults, never
again. -/
theorem captures_fresh (writes : List (Array (Array α) → Array (Array α))) {device : Device α}
    (unfaulted : Unfaulted (issueAll sweep writes (graph none) device).1) :
    (issueAll sweep writes (graph none) device).2.counters.captures =
      device.counters.captures + min writes.length 1 := by
  cases writes with
  | nil => rfl
  | cons write rest =>
      rw [issue_all_fresh] at unfaulted ⊢
      refine (captures_issue_all _ _ unfaulted).trans ?_
      simp [capturing, Device.count, Device.report]

theorem sturdy_fresh (writes : List (Array (Array α) → Array (Array α)))
    (spare : ∀ write ∈ writes, Spares sweep write) {device : Device α}
    (sturdy : Sturdy sweep device) :
    Unfaulted (issueAll sweep writes (graph none) device).1 := by
  cases writes with
  | nil => exact fun _ member => nomatch member
  | cons write rest =>
      rw [issue_all_fresh]
      exact issue_all_sturdy (write :: rest) spare (sturdy.of_single rfl sturdy.single)

end Issues

end Launcher

namespace SolveM

theorem agree_issue {sweep : Sweep} {first second : Launcher}
    (paired : Launcher.Paired sweep first second) :
    Agree SolveScope.Alike (Launcher.Paired sweep) (issue first sweep : SolveM α μ Launcher)
      (issue second sweep) := by
  intro left right same
  have issued := Launcher.issue_paired paired same.device
  unfold SolveM.issue
  generalize first.issue sweep left.device = before at issued ⊢
  generalize second.issue sweep right.device = after at issued ⊢
  obtain ⟨⟨outcome, next⟩, device⟩ := before
  obtain ⟨⟨outcome', next'⟩, device'⟩ := after
  obtain ⟨equal, kept, paired'⟩ := issued
  dsimp only at equal kept paired'
  subst equal
  refine .done ⟨?_, kept, same.statistics, same.memory⟩
  cases outcome with
  | ok _ => exact .ok paired'
  | error failure => exact .error failure

end SolveM

namespace Solver

def withLaunch (solver : Solver α) (mode : LaunchMode) : Solver α :=
  { solver with config := { solver.config with launch := mode } }

variable (solver : Solver α) (matrix : Matrix α) (request : Request α)
  (policy : Policy α μ)

theorem agree_needs_solving [SquareRoot α] (rhs : Buffer) :
    Agree SolveScope.Alike Eq
      ((solver.withLaunch .direct).needsSolving rhs : SolveM α μ Bool)
      ((solver.withLaunch .graph).needsSolving rhs) := by
  apply (SolveM.agree_call (Device.agree_download _ _)).ofBind
  rintro values _ rfl
  apply (Agree.ofCollective _).ofBind
  rintro squares _ rfl
  exact .ofPure rfl

theorem agree_scratch (auxiliary : Option Buffer) (needed : Nat) :
    Agree SolveScope.Alike Eq (scratch auxiliary needed : SolveM α μ (Buffer × ScratchOrigin))
      (scratch auxiliary needed) := by
  have allocated : Agree SolveScope.Alike Eq
      (do pure (← SolveM.call (Device.alloc needed), ScratchOrigin.allocated) :
        SolveM α μ (Buffer × ScratchOrigin))
      (do pure (← SolveM.call (Device.alloc needed), ScratchOrigin.allocated)) := by
    apply (SolveM.agree_call (Device.agree_alloc _)).ofBind
    rintro buffer _ rfl
    exact .ofPure rfl
  unfold scratch
  cases auxiliary with
  | none => exact allocated
  | some buffer =>
      apply Agree.ofGet
      intro left right same
      rw [same.device.contents buffer]
      exact .ofIte (.ofPure rfl) ((SolveM.agree_report _).ofBind fun _ _ _ => allocated)

theorem agree_prepare_sweep (previous : Buffer) :
    Agree SolveScope.Alike Eq
      ((solver.withLaunch .direct).prepareSweep request previous : SolveM α μ Sweep)
      ((solver.withLaunch .graph).prepareSweep request previous) := by
  apply Agree.ofGet
  intro left right same
  have geometry := same.device.geometry solver.rows
  dsimp only [withLaunch]
  rw [geometry]
  apply (SolveM.agree_call (Device.agree_alloc _)).ofBind
  rintro partials _ rfl
  apply (SolveM.agree_call (Device.agree_alloc _)).ofBind
  rintro residual _ rfl
  exact .ofPure rfl

variable [SquareRoot α]

theorem agree_sweep_once {sweep : Sweep} {first second : Launcher}
    (paired : Launcher.Paired sweep first second) :
    Agree SolveScope.Alike (fun a b => a.1 = b.1 ∧ Launcher.Paired sweep a.2 b.2)
      ((solver.withLaunch .direct).sweepOnce matrix sweep first : SolveM α μ (α × Launcher))
      ((solver.withLaunch .graph).sweepOnce matrix sweep second) := by
  apply (SolveM.agree_on_device (matrix.agree_apply_off_diagonal _ _)).ofBind
  intro _ _ _
  apply (SolveM.agree_issue paired).ofBind
  intro first' second' paired'
  apply (SolveM.agree_call (Device.agree_read_scalar _)).ofBind
  rintro square _ rfl
  apply (Agree.ofCollective _).ofBind
  rintro squares _ rfl
  exact .ofPure ⟨rfl, paired'⟩

theorem agree_iterate (sweep : Sweep) (origin : ScratchOrigin) (remaining : Nat) :
    ∀ {first second : Launcher}, Launcher.Paired sweep first second →
      ∀ (progress : Progress α) (history : Array α),
        Agree SolveScope.Alike Eq
          ((solver.withLaunch .direct).iterate matrix policy sweep origin remaining first progress
            history)
          ((solver.withLaunch .graph).iterate matrix policy sweep origin remaining second progress
            history) := by
  -- the induction is on what the iteration counter can still count; the launchers stay paired as
  -- long as the loop goes on
  induction remaining with
  | zero =>
      intro first second paired progress history
      exact .ofThrow _
  | succ remaining ih =>
      intro first second paired progress history
      unfold iterate
      apply (solver.agree_sweep_once matrix paired).ofBind
      rintro ⟨residual, first'⟩ ⟨_, second'⟩ ⟨rfl, paired'⟩
      apply (SolveM.agree_query policy _ residual _).ofBind
      rintro state _ rfl
      apply SolveM.agree_report_if
      apply Agree.ofIte
      · apply (SolveM.agree_record_solve _).ofBind
        intro _ _ _
        apply SolveM.agree_report_if
        exact .ofPure rfl
      · exact ih paired' _ _

theorem agree_relax_on (scratch : Buffer × ScratchOrigin) :
    Agree SolveScope.Alike Eq ((solver.withLaunch .direct).relaxOn matrix request policy scratch)
      ((solver.withLaunch .graph).relaxOn matrix request policy scratch) := by
  apply (SolveM.agree_call (Device.agree_copy _ _ _)).ofBind
  intro _ _ _
  apply (solver.agree_prepare_sweep request scratch.1).ofBind
  rintro sweep _ rfl
  exact solver.agree_iterate matrix policy sweep scratch.2 _ .fresh _ _

theorem agree_relax :
    Agree SolveScope.Alike Eq ((solver.withLaunch .direct).relax matrix request policy)
      ((solver.withLaunch .graph).relax matrix request policy) := by
  rw [relax_eq, relax_eq]
  apply (agree_scratch request.auxiliary _).ofBind
  rintro scratch _ rfl
  exact solver.agree_relax_on matrix request policy scratch

theorem agree_conclude (now : Bool) :
    Agree SolveScope.Alike Eq ((solver.withLaunch .direct).conclude matrix request policy now)
      ((solver.withLaunch .graph).conclude matrix request policy now) := by
  apply Agree.ofIte
  · apply (SolveM.agree_record_solve _).ofBind
    intro _ _ _
    apply SolveM.agree_report_if
    exact .ofPure rfl
  · exact solver.agree_relax matrix request policy

theorem agree_ends_at_once :
    Agree SolveScope.Alike Eq ((solver.withLaunch .direct).endsAtOnce request : SolveM α μ Bool)
      ((solver.withLaunch .graph).endsAtOnce request) := by
  refine .ofIte ((solver.agree_needs_solving request.rhs).ofBind ?_) (.ofPure rfl)
  rintro needed _ rfl
  exact .ofPure rfl

theorem agree_solve :
    Agree SolveScope.Alike Eq ((solver.withLaunch .direct).solve matrix request policy)
      ((solver.withLaunch .graph).solve matrix request policy) := by
  rw [solve_eq, solve_eq]
  apply (SolveM.agree_report _).ofBind
  intro _ _ _
  apply Agree.ofGet
  intro left right same
  have validated : (solver.withLaunch .direct).validate matrix request left.device =
      (solver.withLaunch .graph).validate matrix request right.device := by
    unfold validate
    rw [same.device.contents request.rhs, same.device.contents request.iterate]
    rfl
  rw [validated]
  apply (Agree.ofRefusal _).ofBind
  intro _ _ _
  apply (solver.agree_ends_at_once request).ofBind
  rintro now _ rfl
  exact solver.agree_conclude matrix request policy now

def seen (finished : Except (Failure α) (Outcome α) × SolveScope α μ) :
    Except (Failure α) (Outcome α) × Array (Array α) × Statistics × μ :=
  (finished.1, finished.2.device.buffers, finished.2.statistics, finished.2.memory)

omit [Arithmetic α] [SquareRoot α] in
theorem seen_eq {first second : Except (Failure α) (Outcome α) × SolveScope α μ}
    (same : SameResult Eq first.1 second.1 ∧ first.2.Alike second.2) : seen first = seen second := by
  obtain ⟨result, left⟩ := first
  obtain ⟨result', right⟩ := second
  obtain ⟨same, alike⟩ := same
  have equal : result = result' := by
    cases same with
    | ok equal => exact congrArg Except.ok equal
    | error failure => rfl
  unfold seen
  rw [equal, alike.device.buffers, alike.statistics, alike.memory]

theorem seen_solve (solver : Solver α) (matrix : Matrix α) (request : Request α)
    (policy : Policy α μ) (scope : SolveScope α μ) (mode : LaunchMode) :
    seen <$> (solver.withLaunch mode).solve matrix request policy scope =
      seen <$> (solver.withLaunch .direct).solve matrix request policy scope := by
  cases mode with
  | direct => rfl
  | graph =>
      have agreed := solver.agree_solve matrix request policy scope scope
        ⟨Device.Alike.refl _, rfl, rfl⟩
      exact (Collective.map_eq_of_related (agreed.mono fun _ _ => seen_eq)).symm

theorem solve_done_of_direct {solver : Solver α} {matrix : Matrix α} {request : Request α}
    {policy : Policy α μ} {scope : SolveScope α μ}
    {finished : Except (Failure α) (Outcome α) × SolveScope α μ}
    (ran : (solver.withLaunch .direct).solve matrix request policy scope = .done finished) :
    ∃ finished', solver.solve matrix request policy scope = .done finished' ∧
      seen finished' = seen finished := by
  have same := solver.seen_solve matrix request policy scope solver.config.launch
  change seen <$> solver.solve matrix request policy scope = _ at same
  rw [ran] at same
  cases ended : solver.solve matrix request policy scope with
  | done finished' =>
      rw [ended] at same
      exact ⟨finished', rfl, Collective.done.inj same⟩
  | sum value rest =>
      rw [ended] at same
      cases same
  | exchange neighbors owned ghost rest =>
      rw [ended] at same
      cases same

def singleRow : Sweep :=
  ⟨.scalar, 1, .cover 1 256, ⟨0⟩, ⟨1⟩, ⟨2⟩, ⟨3⟩, ⟨4⟩, ⟨5⟩, ⟨6⟩⟩

def singleRowDevice : Device ℚ :=
  ⟨.standard, #[#[4], #[0.25], #[8], #[1], #[0], #[0], #[0]], {}, #[]⟩

def singleRowSolver : Solver ℚ :=
  ⟨"row", .standard, .scalar, 1, ⟨0⟩, ⟨1⟩, .alone, {}⟩

def singleRowWrites : List (Array (Array ℚ) → Array (Array ℚ)) :=
  [id, fun buffers => buffers.setIfInBounds 3 #[2]]

end Solver
end Relaxation

import Relaxation.Proofs.Assembly
import Relaxation.Proofs.PlainSweep
import Relaxation.Proofs.Run

/-!
A solve of a whole matrix: whatever its device, its group and its policy, the iterate it
leaves is the start vector after as many plain sweeps as it reports iterations.
-/

namespace Relaxation

variable {α μ : Type}

open Collective

namespace Solver

section Loop

variable [Arithmetic α] [SquareRoot α] {solver : Solver α} {matrix : Matrix α} {sweep : Sweep}
  {sources : Sources α} {x : Array α} {scope : SolveScope α μ}

def SameTail (matrix : Matrix α) (buffer : Buffer) (before after : Device α) : Prop :=
  ∀ index, matrix.rows * matrix.blockSize ≤ index →
    (after.contents buffer)[index]? = (before.contents buffer)[index]?

section Whole

variable (whole : matrix.halo = none) (square : matrix.columns = matrix.rows)

include whole square

theorem sweep_ends (size : x.size = matrix.rows * matrix.blockSize)
    (carries : Carries matrix sweep sources x scope.device)
    {result : Except (Failure α) (α × Launcher)} {after : SolveScope α μ}
    (ends : (solver.sweepOnce matrix sweep .direct scope).Ends (result, after)) :
    ∃ residual, result = .ok (residual, .direct) ∧
      Carries matrix sweep sources (next matrix sweep.kernel sources x) after.device ∧
      SameTail matrix sweep.iterate scope.device after.device := by
  obtain ⟨device, ran, advanced⟩ := finish_sweep_run solver scope carries.fitting
  have refreshed : (SolveM.onDevice (matrix.refresh sweep.previous) : SolveM α μ Unit) scope =
      .done (.ok (), scope) := by
    unfold SolveM.onDevice
    rw [Matrix.refresh_alone whole]
    rfl
  rw [sweep_once_eq solver .direct carries.fitting, meet_of_done refreshed, ran] at ends
  obtain ⟨total, _, last⟩ := ends_bind_iff.mp ends
  cases ends_done_iff.mp last
  refine ⟨_, rfl, ?_, fun index behind => ?_⟩
  · rw [← carries.sources]
    apply advanced.carries carries.fitting
    · rw [square, size]
    · rw [square]
      exact carries.previous
  · have length := carries.fitting.length_advance
    rw [← carries.fitting.rows, ← carries.fitting.blockSize] at length
    change (device.contents sweep.iterate)[index]? = _
    rw [advanced.iterate, Storage.getElem?_overwrite_outside _ _ _ (.inr (by omega))]

theorem sweeps_next {launcher final : Launcher} {residuals : List α} {reached : SolveScope α μ}
    (sweeps : Sweeps solver matrix sweep launcher scope residuals final reached)
    (sizes : ∀ t, ((next matrix sweep.kernel sources)^[t] x).size = matrix.rows * matrix.blockSize)
    (direct : launcher = .direct) (carries : Carries matrix sweep sources x scope.device) :
    final = .direct ∧ Carries matrix sweep sources
        ((next matrix sweep.kernel sources)^[residuals.length] x) reached.device ∧
      SameTail matrix sweep.iterate scope.device reached.device := by
  -- the induction is on the sweeps of a chain, from the first
  induction sweeps generalizing x with
  | none launcher scope => exact ⟨direct, carries, fun _ _ => rfl⟩
  | more swept alike _ ih =>
      subst direct
      obtain ⟨_, same, carries', tail⟩ := sweep_ends whole square (sizes 0) carries swept
      cases same
      obtain ⟨final, carried, tail'⟩ := ih (fun t => sizes (t + 1)) rfl (carries'.of_alike alike)
      refine ⟨final, carried, fun index behind => ?_⟩
      rw [tail' index behind, alike.contents, tail index behind]

/-- An end with `x` in the owned values of the iterate and nothing else changed in it. It is
reported as the end of iteration `k`, unless no more iterations can be counted. -/
structure Left (matrix : Matrix α) (iterate : Buffer) (before : Device α) (x : Array α)
    (k limit : Nat) (finished : Except (Failure α) (Outcome α) × SolveScope α μ) : Prop where
  values : (finished.2.device.contents iterate).extract 0 (matrix.rows * matrix.blockSize) = x
  tail : SameTail matrix iterate before finished.2.device
  answered : k = limit ∧ finished.1 = .error (.faulted .overflow) ∨
    ∃ outcome, finished.1 = .ok outcome ∧ outcome.iterations = k

theorem loop_next {policy : Policy α μ} {origin : ScratchOrigin} {remaining : Nat}
    {progress : Progress α} {history : Array α}
    {finished : Except (Failure α) (Outcome α) × SolveScope α μ}
    (sizes : ∀ t, ((next matrix sweep.kernel sources)^[t] x).size = matrix.rows * matrix.blockSize)
    (carries : Carries matrix sweep sources x scope.device) (start : progress.iterations = 0)
    (ends : (solver.iterate matrix policy sweep origin remaining .direct progress history
      scope).Ends finished) :
    ∃ k, Left matrix sweep.iterate scope.device ((next matrix sweep.kernel sources)^[k] x) k
      remaining finished := by
  obtain ⟨residuals, final, reached, bound, sweeps, _, _, concludes⟩ := iterate_ends remaining ends
  obtain ⟨rfl, here, tail⟩ := sweeps_next whole square sweeps sizes rfl carries
  generalize room : remaining - residuals.length = left at concludes
  cases concludes with
  | uncounted =>
      exact ⟨residuals.length, (here.read (sizes _)).2, tail, .inl ⟨by omega, rfl⟩⟩
  | failed failing =>
      obtain ⟨_, same, _⟩ := sweep_ends whole square (sizes _) here failing
      cases same
  | stopped swept alike _ _ =>
      obtain ⟨_, _, there, tail'⟩ := sweep_ends whole square (sizes _) here swept
      rw [← Function.iterate_succ_apply' (next matrix sweep.kernel sources)] at there
      refine ⟨residuals.length + 1, ((there.of_alike alike).read (sizes _)).2, fun index behind => ?_,
        .inr ⟨_, rfl, ?_⟩⟩
      · rw [alike.contents, tail' index behind, tail index behind]
      · change _ + 1 = _
        rw [heard_iterations, start, Nat.zero_add]

end Whole

theorem solve_next {request : Request α} {policy : Policy α μ}
    {finished : Except (Failure α) (Outcome α) × SolveScope α μ}
    (installed : Installed solver matrix scope.device) (lent : Lent solver request scope.device)
    (whole : matrix.halo = none) (square : matrix.columns = matrix.rows)
    (direct : solver.config.launch = .direct) {start : Array α}
    (begins : (scope.device.contents request.iterate).extract 0 (matrix.rows * matrix.blockSize) =
      start)
    (sources : Sources α) (reads : sources = ⟨scope.device.contents solver.diagonal,
      scope.device.contents solver.inverse, scope.device.contents request.rhs⟩)
    (sizes : ∀ t, ((next matrix solver.kernel sources)^[t] start).size =
      matrix.rows * matrix.blockSize)
    (ends : (solver.solve matrix request policy scope).Ends finished) :
    ∃ k, Left matrix request.iterate scope.device ((next matrix solver.kernel sources)^[k] start) k
      iterationLimit finished := by
  obtain ⟨device, alike, checked⟩ := solve_checked policy scope installed lent
  obtain ⟨result, last⟩ := finished
  rw [checked] at ends
  have long : solver.owned ≤ (device.contents request.rhs).size :=
    (lent.of_extends (.of_alike alike)).rhsLong
  obtain ⟨_, failing, rfl⟩ | ⟨now, asked, answered, rest⟩ := meet_ends ends
  · obtain ⟨_, same, _⟩ := ends_at_once_ends long failing
    cases same
  obtain ⟨_, _, alike'⟩ := ends_at_once_ends long answered
  have same : asked.device.Alike scope.device :=
    ⟨alike'.width.trans alike.width, alike'.buffers.trans alike.buffers⟩
  cases now with
  | true =>
      obtain ⟨after, kept, ran⟩ := conclude_at_once solver matrix request policy asked
      rw [ran] at rest
      cases ends_done_iff.mp rest
      refine ⟨0, ?_, fun index _ => ?_, .inr ⟨_, rfl, rfl⟩⟩
      · rw [kept.contents, same.contents]
        exact begins
      · rw [kept.contents, same.contents]
  | false =>
      obtain ⟨sweep, origin, after, started, begun⟩ := relax_run policy asked
        (installed.of_extends (.of_alike same)) (lent.of_extends (.of_alike same))
      have carries := begun.carries (x := start) fun index inside => by
        have bound := lent.iterateLong
        rw [Solver.owned, ← installed.rows, ← installed.blockSize] at bound
        rw [same.contents, ← begins, Array.getElem?_extract, if_pos (by omega), Nat.zero_add]
      simp only [same.contents, ← reads] at carries
      unfold conclude at rest
      rw [if_neg Bool.false_ne_true, started, direct] at rest
      rw [← begun.kernel] at sizes ⊢
      obtain ⟨k, held, tail, answered⟩ := loop_next whole square sizes carries rfl rest
      rw [begun.handle] at held tail
      refine ⟨k, held, fun index behind => ?_, answered⟩
      have before := begun.iterate
      rw [begun.handle, same.contents] at before
      rw [tail index behind]
      exact congrArg (fun values : Array α => values[index]?) before

omit [Arithmetic α] [SquareRoot α] in
theorem Left.of_seen {iterate : Buffer} {before : Device α} {k limit : Nat}
    {finished finished' : Except (Failure α) (Outcome α) × SolveScope α μ}
    (left : Left matrix iterate before x k limit finished') (same : seen finished = seen finished') :
    Left matrix iterate before x k limit finished := by
  obtain ⟨result, rest⟩ := Prod.ext_iff.mp same
  obtain ⟨buffers, _⟩ := Prod.ext_iff.mp rest
  have contents : finished.2.device.contents iterate = finished'.2.device.contents iterate := by
    simp only [Device.contents,
      show finished.2.device.buffers = finished'.2.device.buffers from buffers]
  refine ⟨contents ▸ left.values, fun index behind => ?_, ?_⟩
  · rw [contents, left.tail index behind]
  · rw [show finished.1 = finished'.1 from result]
    exact left.answered

end Loop
end Solver

/-- A solve from its setup to one of its ends. Between the two the device may have been used
for anything else that leaves the solver's own buffers alone. -/
structure SolveRun (μ : Type) [Arithmetic α] [SquareRoot α] (matrix : Matrix α)
    (inverse : InverseDiagonal α) where
  name : String
  config : Config α
  bare : Device α
  made : Device α
  solver : Solver α
  set : (Solver.setupWithInverse name matrix config inverse : DeviceM α (Solver α)) bare =
    (.ok solver, made)
  communicator : Communicator
  ready : Device α
  kept : made.Extends ready
  request : Request α
  lent : Solver.Lent solver request ready
  policy : Policy α μ
  statistics : Statistics
  memory : μ
  finished : Except (Failure α) (Outcome α) × SolveScope α μ
  ends : ((solver.withCommunicator communicator).solve matrix request policy
    ⟨ready, statistics, memory⟩).Ends finished

namespace SolveRun

variable [Arithmetic α] [SquareRoot α] {matrix : Matrix α} {inverse : InverseDiagonal α}

def rhs (run : SolveRun μ matrix inverse) : Array α :=
  run.ready.contents run.request.rhs

def start (run : SolveRun μ matrix inverse) : Array α :=
  run.ready.contents run.request.iterate

def left (run : SolveRun μ matrix inverse) : Array α :=
  run.finished.2.device.contents run.request.iterate

def owned (matrix : Matrix α) (vector : Array α) : Array α :=
  vector.extract 0 (matrix.rows * matrix.blockSize)

structure InPlace (run : SolveRun μ matrix inverse) : Prop where
  installed : Solver.Installed run.solver matrix run.ready
  kernel : run.solver.kernel = .ofInverse inverse
  blockSize : inverse.blockSize = matrix.blockSize
  inverse : 0 < matrix.rows → run.ready.contents run.solver.inverse = inverse.values
  rhsLong : matrix.rows * matrix.blockSize ≤ run.rhs.size
  startLong : matrix.rows * matrix.blockSize ≤ run.start.size

theorem in_place (sound : matrix.Sound) (run : SolveRun μ matrix inverse) : run.InPlace := by
  obtain ⟨checked, made, _⟩ := Solver.setup_ok run.set
  obtain ⟨_, same, counted, _⟩ := Solver.check_shape_of_ok checked
  have enough := InverseDiagonal.length_of_rows counted
  have ready := made.of_extends run.kept
  have installed := (Solver.installed_of_setup sound run.set).of_extends run.kept
  have owned : run.solver.owned = matrix.rows * matrix.blockSize := by
    rw [Solver.owned, installed.rows, installed.blockSize]
  refine ⟨installed, made.kernel, same, fun some => ready.inverse.contents ?_,
    owned ▸ run.lent.rhsLong, owned ▸ run.lent.iterateLong⟩
  rw [← Array.size_pos_iff]
  apply Nat.lt_of_lt_of_le _ enough
  apply Kernel.inverse_length_pos some
  rw [Kernel.block_size_of_inverse, same]
  exact sound.positive

omit [Arithmetic α] [SquareRoot α] in
theorem getElem?_owned {vector : Array α} (long : matrix.rows * matrix.blockSize ≤ vector.size)
    {index : Nat} (inside : index < matrix.rows * matrix.blockSize) :
    (owned matrix vector)[index]? = vector[index]? := by
  rw [owned, Array.getElem?_extract, if_pos (by omega), Nat.zero_add]

omit [Arithmetic α] [SquareRoot α] in
theorem size_owned {vector : Array α} (long : matrix.rows * matrix.blockSize ≤ vector.size) :
    (owned matrix vector).size = matrix.rows * matrix.blockSize := by
  rw [owned, Array.size_extract]
  omega

variable {run : SolveRun μ matrix inverse}

def sources (run : SolveRun μ matrix inverse) : Sources α :=
  ⟨run.ready.contents run.solver.diagonal, run.ready.contents run.solver.inverse, run.rhs⟩

theorem next_plain (place : run.InPlace) {x : Array α}
    (size : x.size = matrix.rows * matrix.blockSize) :
    Solver.next matrix run.solver.kernel run.sources x = matrix.plainSweep inverse run.rhs x := by
  have installed := place.installed
  have covered : (Kernel.ofInverse inverse).Covered matrix.rows run.sources := by
    rw [installed.rows, ← place.kernel]
    exact ⟨installed.small, installed.diagonalLong, installed.inverseLong, run.lent.rhsLong⟩
  rw [place.kernel, Solver.next_eq_plain_sweep installed.sound.positive place.blockSize covered
    place.inverse size]
  rfl

theorem iterate_plain (place : run.InPlace) (t : Nat) :
    (Solver.next matrix run.solver.kernel run.sources)^[t] (owned matrix run.start) =
      (matrix.plainSweep inverse run.rhs)^[t] (owned matrix run.start) := by
  induction t with
  | zero => rfl
  | succ t ih =>
      rw [Function.iterate_succ_apply', Function.iterate_succ_apply', ih, next_plain place]
      rw [matrix.size_plain_sweeps, size_owned place.startLong]

theorem left_plain (place : run.InPlace) (whole : matrix.halo = none)
    (square : matrix.columns = matrix.rows) :
    ∃ k, owned matrix run.left =
        (matrix.plainSweep inverse run.rhs)^[k] (owned matrix run.start) ∧
      run.left = (matrix.plainSweep inverse run.rhs)^[k] run.start ∧
      (k = Solver.iterationLimit ∧ run.finished.1 = .error (.faulted .overflow) ∨
        ∃ outcome, run.finished.1 = .ok outcome ∧ outcome.iterations = k) := by
  have sizes : ∀ t, ((matrix.plainSweep inverse run.rhs)^[t] (owned matrix run.start)).size =
      matrix.rows * matrix.blockSize := fun t => by
    rw [matrix.size_plain_sweeps, size_owned place.startLong]
  have installed := (place.installed.with_communicator run.communicator).with_launch .direct
  have lent := (run.lent.with_communicator run.communicator).with_launch .direct
  obtain ⟨finished, direct, same⟩ := Solver.ends_direct run.ends
  obtain ⟨k, ended⟩ := Solver.solve_next installed lent whole square rfl rfl run.sources rfl
    (fun t => (congrArg Array.size (iterate_plain place t)).trans (sizes t)) direct
  obtain ⟨held, tail, answered⟩ := ended.of_seen same
  replace held : owned matrix run.left =
      (matrix.plainSweep inverse run.rhs)^[k] (owned matrix run.start) :=
    held.trans (iterate_plain place k)
  have fits : matrix.rows * matrix.blockSize ≤ run.left.size := by
    have size := sizes k
    rw [← held, owned, Array.size_extract] at size
    omega
  -- the sweeps of the whole buffer have those of its owned values in front
  obtain ⟨front, behind⟩ := matrix.plain_sweeps_local place.installed.sound square place.blockSize
    run.rhs place.startLong (le_of_eq (size_owned place.startLong).symm)
    (fun index inside => (getElem?_owned place.startLong inside).symm) k
  refine ⟨k, held, ?_, answered⟩
  apply Array.ext_getElem?
  intro index
  by_cases inside : index < matrix.rows * matrix.blockSize
  · rw [front index inside, ← held, getElem?_owned fits inside]
  · exact (tail index (by omega)).trans (behind index (by omega)).symm

theorem owned_left (run : SolveRun μ matrix inverse) (place : run.InPlace)
    (whole : matrix.halo = none) (square : matrix.columns = matrix.rows) (outcome : Outcome α)
    (answered : run.finished.1 = .ok outcome) : owned matrix run.left =
      (matrix.plainSweep inverse run.rhs)^[outcome.iterations] (owned matrix run.start) := by
  obtain ⟨k, held, _, ⟨_, failed⟩ | ⟨outcome', same, rfl⟩⟩ := left_plain place whole square
  · rw [answered] at failed
    cases failed
  · rw [answered] at same
    cases same
    exact held

/-- However a solve ends, it leaves the start vector after some number of plain sweeps, and
this is the number of iterations that it reports. Two solves of the same system from the same
start, on devices of any thread-block widths and in any groups, that report as many
iterations leave the same values. -/
theorem solve_repeats_plain_sweep {rows n : Nat} {diagonal : Array α} {entries : List (Entry α)}
    (assembled : Matrix.assemble rows rows n diagonal entries = .ok matrix)
    (run : SolveRun μ matrix inverse) :
    (∃ k, run.left = (matrix.plainSweep inverse run.rhs)^[k] run.start ∧
      (k = Solver.iterationLimit ∧ run.finished.1 = .error (.faulted .overflow) ∨
        ∃ outcome, run.finished.1 = .ok outcome ∧ outcome.iterations = k)) ∧
    ∀ (ν : Type) (other : SolveRun ν matrix inverse) (outcome outcome' : Outcome α),
      run.finished.1 = .ok outcome → other.finished.1 = .ok outcome' →
      outcome.iterations = outcome'.iterations → owned matrix run.rhs = owned matrix other.rhs →
      owned matrix run.start = owned matrix other.start →
      owned matrix run.left = owned matrix other.left := by
  have sound := Matrix.sound_of_assemble assembled
  obtain ⟨_, _, _, _, shape⟩ := Matrix.assemble_ok assembled
  have square : matrix.columns = matrix.rows := by
    rw [shape]
    rfl
  have whole : matrix.halo = none := by
    rw [shape]
    rfl
  refine ⟨?_, ?_⟩
  · obtain ⟨k, _, left, answered⟩ := left_plain (in_place sound run) whole square
    exact ⟨k, left, answered⟩
  intro ν other outcome outcome' answered answered' same rhs start
  have place := in_place sound run
  have place' := in_place sound other
  have sweeps := run.owned_left place whole square outcome answered
  have sweeps' := other.owned_left place' whole square outcome' answered'
  have rows : ∀ index, index < matrix.rows * matrix.blockSize →
      run.rhs.getD index 0 = other.rhs.getD index 0 := by
    intro index inside
    rw [Array.getD_eq_getD_getElem?, Array.getD_eq_getD_getElem?,
      ← getElem?_owned place.rhsLong inside, rhs, getElem?_owned place'.rhsLong inside]
  have repeated : matrix.plainSweep inverse run.rhs = matrix.plainSweep inverse other.rhs :=
    funext (Matrix.plain_sweep_congr (place.blockSize ▸ sound.positive) place.blockSize rows)
  rw [sweeps, sweeps', same, repeated, start]

def pairedRows : Matrix ℚ :=
  ⟨2, 2, 2, #[2, 0, 1, 1, 1, 1, 0, 2], #[1, -1], #[1, 0], #[0, 1, 2], none⟩

def pairedFactors : InverseDiagonal ℚ :=
  .factors 2 #[2, 0, 1 / 2, 1, 1, 1, 0, 2]

def onePass : Config ℚ :=
  { Config.standard with maxIterations := 1 }

def pairedSolver : Solver ℚ :=
  ⟨"pair", onePass, .block 2, 2, ⟨0⟩, ⟨1⟩, .alone, Statistics.recordSetup {} 0⟩

def pairedMade : Device ℚ :=
  ⟨.narrowest, #[pairedRows.diagonal, pairedFactors.values], {},
    #[.setupSpan "pair", .setUp "block_jacobi_n" 2 2 "host"]⟩

def pairedReady : Device ℚ :=
  { pairedMade with buffers := pairedMade.buffers ++ #[#[8, 6, 4, 2], #[1, 1, 1, 1, 9]] }

/-- A single iteration, whose squares are not of interest. -/
def pairedSolve : Collective ℚ (Except (Failure ℚ) (Outcome ℚ) × SolveScope ℚ (Option (Best ℚ))) :=
  @Solver.solve ℚ _ _ ⟨id⟩ pairedSolver pairedRows ⟨⟨2⟩, ⟨3⟩, 10, none⟩ (.residual none)
    ⟨pairedReady, {}, none⟩

theorem paired_rows_swept :
    letI : SquareRoot ℚ := ⟨id⟩
    ∃ run : SolveRun (Option (Best ℚ)) pairedRows pairedFactors,
      run.ready = pairedReady ∧ run.left = #[7 / 2, 3 / 2, 7 / 2, 3 / 2, 9] := by
  let root : SquareRoot ℚ := ⟨id⟩
  have assembled : Matrix.assemble 2 2 2 #[2, 0, 1, 1, 1, 1, 0, 2] [⟨0, 1, 1⟩, ⟨1, 0, -1⟩] =
      .ok pairedRows := by
    cbv
  have counted : pairedSolve.answer?.map Outcome.iterations = some 1 := by
    decide +kernel
  obtain ⟨outcome, answered, once⟩ := Option.map_eq_some_iff.mp counted
  obtain ⟨last, ended⟩ := Collective.done_of_answer answered
  have kept : pairedMade.Extends pairedReady := by
    refine ⟨rfl, by decide, ?_⟩
    rintro ⟨index⟩ held
    have small : index < 2 := held
    interval_cases index <;> rfl
  have lent : Solver.Lent pairedSolver ⟨⟨2⟩, ⟨3⟩, 10, none⟩ pairedReady :=
    ⟨(by decide : 2 < 4), (by decide : 3 < 4), by decide, by decide, by decide, by simp⟩
  have ends : pairedSolve.Ends (.ok outcome, last) := ended ▸ .done _
  let run : SolveRun (Option (Best ℚ)) pairedRows pairedFactors :=
    { name := "pair", config := onePass, bare := .create .narrowest, made := pairedMade
      solver := pairedSolver, set := rfl, communicator := .alone
      ready := pairedReady, kept, request := ⟨⟨2⟩, ⟨3⟩, 10, none⟩, lent
      policy := .residual none, statistics := {}, memory := none
      finished := (.ok outcome, last), ends }
  obtain ⟨⟨k, left, ⟨_, failed⟩ | ⟨_, same, rfl⟩⟩, _⟩ := solve_repeats_plain_sweep assembled run
  · cases (show Except.ok outcome = _ from failed)
  · cases (show Except.ok outcome = _ from same)
    rw [once] at left
    have swept : pairedRows.plainSweep pairedFactors #[8, 6, 4, 2] #[1, 1, 1, 1, 9] =
        #[7 / 2, 3 / 2, 7 / 2, 3 / 2, 9] := by
      decide +kernel
    exact ⟨run, rfl, left.trans swept⟩

end SolveRun
end Relaxation

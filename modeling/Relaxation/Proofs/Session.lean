import Relaxation.Proofs.Accounting

/-!
Sessions on one device: setups, solves of any of the solvers that were set up, in any order and
however they end, and calls of the caller's own in between. A solver's own buffers are reached by
none of these, so that every solve finds what it needs to be charged as it is on its own.
-/

namespace Relaxation

variable {α μ : Type}

open Collective

namespace Device

variable {device before after : Device α} {buffer : Buffer}

theorem holds_of_filled (filled : 0 < (device.contents buffer).size) : device.Holds buffer := by
  by_contra outside
  have missing : device.buffers[buffer.index]? = none :=
    Array.getElem?_eq_none (Nat.not_lt.mp outside)
  unfold contents at filled
  rw [Array.getD_eq_getD_getElem?, missing] at filled
  exact Nat.lt_irrefl 0 filled

theorem upload_ok [Arithmetic α] {values : Array α}
    (ran : (upload values : DeviceM α Buffer) before = (.ok buffer, after)) :
    before.Extends after ∧ 0 < (after.contents buffer).size ∧ after.counters = before.counters := by
  obtain ⟨_, ran', grown, _⟩ := upload_run values before
  rw [ran] at ran'
  cases ran'
  refine ⟨grown, ?_⟩
  unfold upload at ran
  split at ran
  · cases ran
    exact ⟨by simp [contents, nextHandle], rfl⟩
  · rename_i some
    cases ran
    refine ⟨?_, rfl⟩
    simpa [contents, nextHandle, Array.size_pos_iff] using some

end Device

namespace Solver

section Kept

variable [Arithmetic α] {solver : Solver α} {first second third device made : Device α}

def Kept (solver : Solver α) (before after : Device α) : Prop :=
  ∀ buffer ∈ [solver.diagonal, solver.inverse],
    after.Holds buffer ∧ after.contents buffer = before.contents buffer

omit [Arithmetic α] in
theorem Kept.trans (early : solver.Kept first second) (late : solver.Kept second third) :
    solver.Kept first third := fun buffer listed =>
  ⟨(late buffer listed).1, (late buffer listed).2.trans (early buffer listed).2⟩

omit [Arithmetic α] in
theorem Kept.of_extends (kept : solver.Kept first second) (grown : second.Extends third) :
    solver.Kept first third := fun buffer listed =>
  have ⟨held, same⟩ := kept buffer listed
  ⟨grown.holds held, (grown.contents buffer held).trans same⟩

theorem setup_adds {name : String} {matrix : Matrix α} {config : Config α}
    {inverse : InverseDiagonal α}
    (ran : setupWithInverse name matrix config inverse device = (.ok solver, made)) :
    device.Extends made ∧ made.counters = device.counters ∧
      ∀ buffer ∈ [solver.diagonal, solver.inverse], 0 < (made.contents buffer).size := by
  obtain ⟨first, second, event, uploaded, uploaded', rfl, _⟩ := setup_uploads ran
  obtain ⟨grown, filled, counted⟩ := Device.upload_ok uploaded
  obtain ⟨grown', filled', counted'⟩ := Device.upload_ok uploaded'
  have all := grown.trans grown'
  refine ⟨⟨all.width, all.grown, all.contents⟩, counted'.trans counted, fun buffer listed => ?_⟩
  simp only [List.mem_cons, List.not_mem_nil, or_false] at listed
  rcases listed with rfl | rfl
  · rw [← grown'.contents _ (Device.holds_of_filled filled)] at filled
    exact filled
  · exact filled'

theorem SetUp.filled (setUp : SetUp solver made) :
    ∀ buffer ∈ [solver.diagonal, solver.inverse], 0 < (made.contents buffer).size := by
  obtain ⟨_, _, _, _, _, ran⟩ := setUp.with_inverse
  obtain ⟨_, _, filled⟩ := setup_adds ran
  exact filled

theorem SetUp.kept (setUp : SetUp solver made) : solver.Kept made made := fun buffer listed =>
  ⟨Device.holds_of_filled (setUp.filled buffer listed), rfl⟩

variable [SquareRoot α] {other : Solver α} {matrix : Matrix α} {request : Request α}
  {policy : Policy α μ} {scope last : SolveScope α μ} {result : Except (Failure α) (Outcome α)}

theorem Kept.solved (kept : solver.Kept made scope.device) (setUp : SetUp solver made)
    (foreign : ∀ buffer ∈ request.buffers, scope.device.Holds buffer ∧
      buffer ∉ [solver.diagonal, solver.inverse])
    (ends : (other.solve matrix request policy scope).Ends (result, last)) :
    solver.Kept made last.device := by
  intro buffer listed
  obtain ⟨held, same⟩ := kept buffer listed
  have unnamed : buffer ∉ request.buffers := fun named => (foreign buffer named).2 listed
  simp only [Request.buffers, List.mem_cons, not_or, Option.mem_toList] at unnamed
  obtain ⟨_, iterate, auxiliary⟩ := unnamed
  have lent : ∀ given ∈ request.auxiliary, scope.device.Holds given := fun given listed =>
    (foreign given (by simp [Request.buffers, Option.mem_toList.mpr listed])).1
  have left := solve_leaves iterate (fun given => absurd given auxiliary) lent held ends
  refine ⟨Device.holds_of_filled ?_, left.trans same⟩
  rw [left, same]
  exact setUp.filled buffer listed

end Kept
end Solver

/-- A solve on a device: how it launches, its norm, what it came to, and what the device had
counted before and after it. -/
structure Posting (α : Type) where
  launch : LaunchMode
  norm : α
  result : Except (Failure α) (Outcome α)
  before : Counters
  after : Counters

namespace Posting

variable [Arithmetic α]

/-- An answer is charged for a look at its right-hand side and for its sweeps, a failure is not
charged. -/
def charge (posting : Posting α) : Counters :=
  match posting.result with
  | .ok outcome => Solver.looks posting.norm + posting.launch.charge outcome.iterations
  | .error _ => 0

def Unfaulted (posting : Posting α) : Prop :=
  ∀ fault, posting.result ≠ .error (.faulted fault)

/-- An answer has been charged for, with a residual for each of its iterations, and a refusal has
not. -/
structure Fair (posting : Posting α) : Prop where
  answered : ∀ outcome, posting.result = .ok outcome →
    outcome.history.size = outcome.iterations ∧
      posting.after = posting.before +
        (Solver.looks posting.norm + posting.launch.charge outcome.iterations)
  refused : ∀ refusal, posting.result = .error (.refused refusal) → posting.after = posting.before

theorem Fair.charged {posting : Posting α} (fair : posting.Fair) (unfaulted : posting.Unfaulted) :
    posting.after = posting.before + posting.charge := by
  obtain ⟨launch, norm, result, before, after⟩ := posting
  match result, fair, unfaulted with
  | .ok outcome, fair, _ => exact (fair.answered outcome rfl).2
  | .error (.refused refusal), fair, _ =>
      exact (fair.refused refusal rfl).trans (add_zero before).symm
  | .error (.faulted fault), _, unfaulted => exact absurd rfl (unfaulted fault)

end Posting

namespace Device

variable [Arithmetic α] [SquareRoot α]

/-- A session on a device, with the solvers that take part, what the caller has spent itself, and
the solves so far. A solve is given buffers of the device that are none of a solver's own, and a
matrix with a column for each row, as any assembled matrix has; everything else about it may be
any, and it returns what it can in its group. The caller may do what it likes with all other
buffers. -/
inductive Session : List (Solver α) → Counters → List (Posting α) → Device α → Prop where
  | opened (width : BlockWidth) : Session [] 0 [] (.create width)
  | called {solvers : List (Solver α)} {spent : Counters} {postings : List (Posting α)}
      {device after : Device α} (earlier : Session solvers spent postings device)
      (extra : Counters) (counted : after.counters = device.counters + extra)
      (kept : ∀ solver ∈ solvers, solver.Kept device after) :
      Session solvers (spent + extra) postings after
  | joined {solvers : List (Solver α)} {spent : Counters} {postings : List (Posting α)}
      {device made : Device α} (earlier : Session solvers spent postings device)
      {solver : Solver α} (setUp : Solver.SetUp solver made) (kept : solver.Kept made device) :
      Session (solver :: solvers) spent postings device
  | solved {μ : Type} {solvers : List (Solver α)} {spent : Counters}
      {postings : List (Posting α)} {scope last : SolveScope α μ}
      (earlier : Session solvers spent postings scope.device) {solver : Solver α}
      (listed : solver ∈ solvers) (communicator : Communicator) {matrix : Matrix α}
      (covers : matrix.rows ≤ matrix.columns) {request : Request α}
      (foreign : ∀ buffer ∈ request.buffers, scope.device.Holds buffer ∧
        ∀ other ∈ solvers, buffer ∉ [other.diagonal, other.inverse])
      (policy : Policy α μ) {result : Except (Failure α) (Outcome α)}
      (returns : ((solver.withCommunicator communicator).solve matrix request policy scope).Returns
        (result, last)) :
      Session solvers spent (postings ++ [⟨solver.config.launch, request.norm, result,
        scope.counters, last.counters⟩]) last.device

namespace Session

variable {solvers : List (Solver α)} {spent : Counters} {postings : List (Posting α)}
  {device : Device α}

theorem kept (session : Session solvers spent postings device) :
    ∀ solver ∈ solvers, ∃ made, Solver.SetUp solver made ∧ solver.Kept made device := by
  induction session with
  | opened => exact fun _ listed => absurd listed List.not_mem_nil
  | called _ _ _ kept ih =>
      intro solver listed
      obtain ⟨made, setUp, same⟩ := ih solver listed
      exact ⟨made, setUp, same.trans (kept solver listed)⟩
  | joined _ setUp same ih =>
      intro solver listed
      rcases List.mem_cons.mp listed with rfl | listed
      · exact ⟨_, setUp, same⟩
      · exact ih solver listed
  | solved _ _ _ _ foreign _ returns ih =>
      intro solver listed
      obtain ⟨made, setUp, same⟩ := ih solver listed
      refine ⟨made, setUp, same.solved setUp (fun buffer named => ?_) returns.ends⟩
      exact ⟨(foreign buffer named).1, (foreign buffer named).2 solver listed⟩

theorem set_up (session : Session solvers spent postings device) {name : String}
    {matrix : Matrix α} {config : Config α} {inverse : InverseDiagonal α} {solver : Solver α}
    {made : Device α}
    (ran : Solver.setupWithInverse name matrix config inverse device = (.ok solver, made)) :
    Session (solver :: solvers) spent postings made := by
  have setUp : Solver.SetUp solver made := .given ran
  obtain ⟨grown, counted, _⟩ := Solver.setup_adds ran
  have held : ∀ other ∈ solvers, other.Kept device device := by
    intro other listed buffer named
    obtain ⟨_, _, same⟩ := session.kept other listed
    exact ⟨(same buffer named).1, rfl⟩
  have called := session.called 0 (counted.trans (add_zero _).symm)
    fun other listed => (held other listed).of_extends grown
  rw [add_zero] at called
  exact called.joined setUp setUp.kept

section Solved

variable {scope last : SolveScope α μ} {solver : Solver α} {matrix : Matrix α}
  {request : Request α} {policy : Policy α μ} {communicator : Communicator}
  {result : Except (Failure α) (Outcome α)}

theorem posted (earlier : Session solvers spent postings scope.device) (listed : solver ∈ solvers)
    (covers : matrix.rows ≤ matrix.columns)
    (foreign : ∀ buffer ∈ request.buffers, scope.device.Holds buffer ∧
      ∀ other ∈ solvers, buffer ∉ [other.diagonal, other.inverse])
    (returns : ((solver.withCommunicator communicator).solve matrix request policy scope).Returns
      (result, last)) :
    Posting.Fair ⟨solver.config.launch, request.norm, result, scope.counters, last.counters⟩ := by
  obtain ⟨made, setUp, kept⟩ := earlier.kept solver listed
  have furnished := setUp.furnished.of_kept communicator kept
  have apart : ∀ buffer ∈ request.buffers, scope.device.Holds buffer ∧
      buffer ∉ [solver.diagonal, solver.inverse] := fun buffer named =>
    ⟨(foreign buffer named).1, (foreign buffer named).2 solver listed⟩
  constructor
  · rintro outcome (rfl : result = _)
    have answered := Solver.solve_spends returns.ends
    exact answered
  · rintro refusal (rfl : result = _)
    have refused := Solver.refused_spends_nothing covers furnished apart returns
    exact refused

end Solved

theorem fair (session : Session solvers spent postings device) :
    ∀ posting ∈ postings, posting.Fair := by
  induction session with
  | opened => exact fun _ listed => absurd listed List.not_mem_nil
  | called _ _ _ _ ih => exact ih
  | joined _ _ _ ih => exact ih
  | solved earlier listed _ covers foreign _ returns ih =>
      intro posting posted
      rcases List.mem_append.mp posted with before | new
      · exact ih posting before
      · rw [List.mem_singleton.mp new]
        exact earlier.posted listed covers foreign returns

theorem total (session : Session solvers spent postings device)
    (unfaulted : ∀ posting ∈ postings, posting.Unfaulted) :
    device.counters = spent + (postings.map Posting.charge).sum := by
  induction session with
  | opened => rfl
  | called _ extra counted _ ih => rw [counted, ih unfaulted, add_right_comm]
  | joined _ _ _ ih => exact ih unfaulted
  | solved earlier listed _ covers foreign _ returns ih =>
      have before := ih fun posting posted => unfaulted posting (List.mem_append_left _ posted)
      have charged := (earlier.posted listed covers foreign returns).charged
        (unfaulted _ (List.mem_append_right _ List.mem_cons_self))
      rw [List.map_append, List.sum_append, List.map_singleton, List.sum_singleton, ← add_assoc,
        ← before]
      exact charged

/-- In a session each solve that answers is charged by its launch mode for its iterations, for
each of which it reports a residual, and for a look at its right-hand side if its norm counts as
zero; a refused one is charged nothing. As long as no solve comes to a fault, these charges and
what the caller has spent are all that the device has counted. -/
theorem solves_accounted (session : Session solvers spent postings device) :
    (∀ posting ∈ postings, posting.Fair) ∧
      ((∀ posting ∈ postings, posting.Unfaulted) →
        device.counters = spent + (postings.map Posting.charge).sum) :=
  ⟨session.fair, session.total⟩

def capturingSolver : Solver ℚ :=
  { Solver.twoRowsSolver with
    config := { Config.standard with launch := .graph }
    diagonal := ⟨2⟩
    inverse := ⟨3⟩ }

def sharingSolvers : List (Solver ℚ) :=
  [capturingSolver, Solver.twoRowsSolver]

/-- The buffers of both solvers, a right-hand side, a start vector and zeros, of which the caller
has read one back. -/
def sharedDevice : Device ℚ :=
  ⟨.narrowest, #[#[1, 1], #[1, 1], #[1, 1], #[1, 1], #[3, 4], #[5, 6], #[0, 0]], .readback, #[]⟩

def sharedSolve (solver : Solver ℚ) (rhs : Nat) (norm : ℚ) (device : Device ℚ) :
    Collective ℚ (Except (Failure ℚ) (Outcome ℚ) × SolveScope ℚ (Option (Best ℚ))) :=
  @Solver.solve ℚ _ _ ⟨id⟩ (solver.withCommunicator .alone) Solver.twoRows
    ⟨⟨rhs⟩, ⟨5⟩, norm, none⟩ (.residual none) ⟨device, {}, none⟩

def behind (solver : Solver ℚ) (rhs : Nat) (norm : ℚ) (device : Device ℚ) : Device ℚ :=
  (sharedSolve solver rhs norm device).runAlone.2.device

theorem shared_session : letI : SquareRoot ℚ := ⟨id⟩
    Session sharingSolvers .readback [] sharedDevice := by
  let root : SquareRoot ℚ := ⟨id⟩
  obtain ⟨first, ran⟩ : ∃ first, Solver.setupWithInverse "rows" Solver.twoRows .standard
      (.reciprocals #[1, 1]) (Device.create .narrowest) = (.ok Solver.twoRowsSolver, first) :=
    ⟨_, rfl⟩
  obtain ⟨second, ran', counted, same⟩ : ∃ second, Solver.setupWithInverse "rows" Solver.twoRows
      { Config.standard with launch := .graph } (.reciprocals #[1, 1]) first =
        (.ok capturingSolver, second) ∧ sharedDevice.counters = second.counters + .readback ∧
      ∀ solver ∈ sharingSolvers, solver.Kept second sharedDevice := by
    cases ran
    refine ⟨_, rfl, rfl, fun solver listed buffer named => ?_⟩
    simp only [sharingSolvers, List.mem_cons, List.not_mem_nil, or_false] at listed
    rcases listed with rfl | rfl <;>
      simp only [capturingSolver, Solver.twoRowsSolver, List.mem_cons, List.not_mem_nil,
        or_false] at named <;>
      rcases named with rfl | rfl <;> exact ⟨by decide, rfl⟩
  have session := ((opened .narrowest).set_up ran).set_up ran'
  have called := session.called .readback counted same
  rw [zero_add] at called
  exact called

theorem shared_solved {postings : List (Posting ℚ)} {device : Device ℚ} {solver : Solver ℚ}
    {rhs : Nat} {norm : ℚ} {result : Except (Failure ℚ) (Outcome ℚ)} :
    letI : SquareRoot ℚ := ⟨id⟩
    Session sharingSolvers .readback postings device → solver ∈ sharingSolvers → rhs ∈ [4, 5, 6] →
    6 < device.buffers.size →
    (∃ last, sharedSolve solver rhs norm device = .done (result, last)) →
    Session sharingSolvers .readback (postings ++ [⟨solver.config.launch, norm, result,
      device.counters, (behind solver rhs norm device).counters⟩])
      (behind solver rhs norm device) := by
  let root : SquareRoot ℚ := ⟨id⟩
  intro session listed known room ⟨last, ended⟩
  have foreign : ∀ buffer ∈ [(⟨rhs⟩ : Buffer), ⟨5⟩], device.Holds buffer ∧
      ∀ other ∈ sharingSolvers, buffer ∉ [other.diagonal, other.inverse] := by
    intro buffer named
    simp only [List.mem_cons, List.not_mem_nil, or_false] at named known
    rcases named with rfl | rfl
    · rcases known with rfl | rfl | rfl <;>
        exact ⟨Nat.lt_of_le_of_lt (by decide) room, by decide⟩
    · exact ⟨Nat.lt_of_le_of_lt (by decide) room, by decide⟩
  have here : behind solver rhs norm device = last.device := by
    unfold behind
    rw [ended]
    rfl
  have returns : (sharedSolve solver rhs norm device).Returns (result, last) := ended ▸ .done _
  rw [here]
  exact @solved ℚ _ _ _ sharingSolvers .readback postings ⟨device, {}, none⟩ last session solver
    listed .alone Solver.twoRows (Nat.le_refl 2) ⟨⟨rhs⟩, ⟨5⟩, norm, none⟩ foreign (.residual none)
    result returns

/-- A solve that is refused, one with nothing to do, one of two iterations and one of one. -/
theorem launch_modes_accounted : letI : SquareRoot ℚ := ⟨id⟩
    ∃ postings device, Session sharingSolvers .readback postings device ∧
      postings.map Posting.launch = [.graph, .graph, .graph, .direct] ∧
      device.counters = ⟨5, 6, 1, 2⟩ := by
  let root : SquareRoot ℚ := ⟨id⟩
  let first := behind capturingSolver 5 1 sharedDevice
  let second := behind capturingSolver 6 0 first
  let third := behind capturingSolver 4 1 second
  obtain ⟨refused, none, two, one, roomy, roomy', roomy''⟩ :
      (sharedSolve capturingSolver 5 1 sharedDevice).refusal?.isSome ∧
      (sharedSolve capturingSolver 6 0 first).answer?.map Outcome.iterations = some 0 ∧
      (sharedSolve capturingSolver 4 1 second).answer?.map Outcome.iterations = some 2 ∧
      (sharedSolve Solver.twoRowsSolver 4 0 third).answer?.map Outcome.iterations = some 1 ∧
      6 < first.buffers.size ∧ 6 < second.buffers.size ∧ 6 < third.buffers.size := by
    decide +kernel
  obtain ⟨refusal, refused⟩ := Option.isSome_iff_exists.mp refused
  obtain ⟨_, answered, none⟩ := Option.map_eq_some_iff.mp none
  obtain ⟨_, answered', two⟩ := Option.map_eq_some_iff.mp two
  obtain ⟨_, answered'', one⟩ := Option.map_eq_some_iff.mp one
  have session := shared_solved shared_session List.mem_cons_self (by decide) (by decide)
    (Collective.done_of_refusal refused)
  have session := shared_solved session List.mem_cons_self (by decide) roomy
    (Collective.done_of_answer answered)
  have session := shared_solved session List.mem_cons_self (by decide) roomy'
    (Collective.done_of_answer answered')
  have session := shared_solved session (List.mem_cons_of_mem _ List.mem_cons_self) (by decide)
    roomy'' (Collective.done_of_answer answered'')
  obtain ⟨_, counted⟩ := session.solves_accounted
  refine ⟨_, _, session, rfl, (counted ?_).trans ?_⟩
  · intro posting listed fault
    simp only [List.nil_append, List.cons_append, List.mem_cons, List.not_mem_nil, or_false]
      at listed
    rcases listed with rfl | rfl | rfl | rfl <;> exact nofun
  · have looked : Solver.looks (0 : ℚ) = .readback ∧ Solver.looks (1 : ℚ) = 0 := by
      decide +kernel
    simp only [List.nil_append, List.cons_append, List.map_cons, List.map_nil, Posting.charge,
      none, two, one, looked]
    rfl

end Session
end Device
end Relaxation

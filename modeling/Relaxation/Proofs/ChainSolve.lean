import Relaxation.Proofs.ChainRanks

/-!
A chain solved by one process, and by ranks that each have a part of it. After the same
number of iterations the ranks hold what the one process holds, cut into their parts.
-/

namespace Relaxation

namespace Model

variable {α μ : Type} [Arithmetic α]

def chainValues (n : Nat) (diagonal coupling : α) (rhs start : Array α) : Nat → Array α
  | 0 => start
  | t + 1 => chainNext n diagonal coupling rhs (chainValues n diagonal coupling rhs start t)

variable {n ranks k : Nat} {diagonal coupling : α} {rhs start : Array α}

theorem size_chain_values (diagonal coupling : α) (rhsSize : rhs.size = n)
    (startSize : start.size = n) (t : Nat) :
    (chainValues n diagonal coupling rhs start t).size = n := by
  induction t with
  | zero => exact startSize
  | succ t ih => exact size_chain_next diagonal coupling ih rhsSize

variable [SquareRoot α]

def chainResiduals (width : BlockWidth) (n : Nat) (diagonal coupling : α) (rhs start : Array α)
    (iteration : Nat) : α :=
  SquareRoot.root (chainSquare width n diagonal coupling rhs
    (chainValues n diagonal coupling rhs start (iteration - 1)) ⟨0, n⟩)

def ranksResiduals (widths : Nat → BlockWidth) (n ranks : Nat) (diagonal coupling : α)
    (rhs start : Array α) (iteration : Nat) : α :=
  SquareRoot.root (ranksSquare widths n ranks diagonal coupling rhs
    (chainValues n diagonal coupling rhs start (iteration - 1)))

section Run

variable [SignedZeros α] {widths : Nat → BlockWidth}
  {programs : List (Collective α (Except (Failure α) (Outcome α × Array α)))}

theorem Abreast.run (fits : ranks ≤ n) (rhsSize : rhs.size = n) (startSize : start.size = n)
    (limit : k ≤ Solver.iterationLimit)
    (abreast : Abreast μ widths n ranks diagonal coupling rhs
      (ranksResiduals widths n ranks diagonal coupling rhs start) start 0 k programs)
    (t left : Nat) (split : t + (left + 1) = k) :
    Abreast μ widths n ranks diagonal coupling rhs
      (ranksResiduals widths n ranks diagonal coupling rhs start)
      (chainValues n diagonal coupling rhs start t) t (left + 1) (Group.after programs (2 * t)) := by
  induction t generalizing left with
  | zero =>
      rw [Nat.zero_add] at split
      exact split ▸ abreast
  | succ t ih =>
      have before := ih (left + 1) (by omega)
      have behind := (before.round fits
        (size_chain_values diagonal coupling rhsSize startSize t) rhsSize (by omega) rfl).2.2
          (Nat.succ_ne_zero left)
      rwa [Group.after_after] at behind

theorem Abreast.solved (fits : ranks ≤ n) (rhsSize : rhs.size = n) (startSize : start.size = n)
    (some : 0 < k) (limit : k ≤ Solver.iterationLimit)
    (abreast : Abreast μ widths n ranks diagonal coupling rhs
      (ranksResiduals widths n ranks diagonal coupling rhs start) start 0 k programs) :
    Group.Joined programs ∧ ∀ rank, rank < ranks → ∃ outcome : Outcome α, outcome.iterations = k ∧
      (Group.after programs (2 * k))[rank]? = .some (.done (.ok (outcome,
        slice n rank ranks (chainValues n diagonal coupling rhs start k)))) := by
  have sizes := size_chain_values diagonal coupling rhsSize startSize
  obtain ⟨last, rfl⟩ := Nat.exists_eq_succ_of_ne_zero (Nat.ne_of_gt some)
  have ends : ∀ rank, rank < ranks → ∃ outcome : Outcome α, outcome.iterations = last + 1 ∧
      (Group.after programs (2 * (last + 1)))[rank]? = .some (.done (.ok (outcome,
        slice n rank ranks (chainValues n diagonal coupling rhs start (last + 1))))) := by
    intro rank inside
    have final := ((abreast.run fits rhsSize startSize limit last 0 rfl).round fits (sizes last)
      rhsSize (by omega) rfl).2.1 rfl rank inside
    rwa [Group.after_after] at final
  refine ⟨fun rounds => ?_, ends⟩
  by_cases early : rounds < 2 * (last + 1)
  · -- an iteration is an exchange and a sum
    have here := abreast.run fits rhsSize startSize limit (rounds / 2) (last - rounds / 2) (by omega)
    rcases Nat.mod_two_eq_zero_or_one rounds with even | odd
    · have same : rounds = 2 * (rounds / 2) := by omega
      rw [same]
      exact .exchange (here.matched fits (sizes _) rhsSize (by omega)).met
    · have same : rounds = 2 * (rounds / 2) + 1 := by omega
      rw [same, ← Group.after_after]
      exact .sum (here.round fits (sizes _) rhsSize (by omega) rfl).1
  · have finished : Group.Ended (Group.after programs (2 * (last + 1))) := by
      intro program member
      obtain ⟨rank, found⟩ := List.mem_iff_getElem?.mp member
      have inside : rank < ranks := by
        simpa [abreast.length] using (List.getElem?_eq_some_iff.mp found).1
      obtain ⟨outcome, _, done⟩ := ends rank inside
      exact ⟨_, Option.some.inj (found.symm.trans done)⟩
    have same : rounds = 2 * (last + 1) + (rounds - 2 * (last + 1)) := by omega
    rw [same, ← Group.after_after, finished.after_eq]
    exact .ended finished

end Run

end Model

namespace Process

open Model

variable {α μ ν : Type} [Arithmetic α] [SquareRoot α] {n rank ranks k : Nat} {diagonal : α}
  {rhs start : Array α} {residuals : Nat → α}

def solveChain (process : Process α μ) (n : Nat) (diagonal coupling : α) (rhs start : Array α) :
    Collective α (Except (Failure α) (Outcome α × Array α)) :=
  match chain n diagonal coupling with
  | .error failure => .done (.error failure)
  | .ok matrix => process.program .alone matrix rhs start

/-- A process that solves its part of a chain as one rank of a group. It takes the rows it
owns out of the global vectors. -/
def solvePart (process : Process α μ) (n : Nat) (diagonal coupling : α) (rhs start : Array α)
    (rank ranks : Nat) : Collective α (Except (Failure α) (Outcome α × Array α)) :=
  match chainPart n diagonal coupling (.member rank ranks) with
  | .error failure => .done (.error failure)
  | .ok (matrix, range) => process.program (.member rank ranks) matrix
      (rhs.extract range.first range.last) (start.extract range.first range.last)

def solveParts (process : Nat → Process α μ) (n : Nat) (diagonal coupling : α)
    (rhs start : Array α) (ranks : Nat) :
    List (Collective α (Except (Failure α) (Outcome α × Array α))) :=
  (List.range ranks).map fun rank =>
    (process rank).solvePart n diagonal coupling rhs start rank ranks

def StopsAfter (process : Process α μ) (k : Nat) (residuals : Nat → α) : Prop :=
  Solver.StopsIn process.policy residuals k process.progress process.memory

omit [Arithmetic α] [SquareRoot α] in
theorem shaped_reciprocals {matrix : Matrix α} {values : Array α} (scalar : matrix.blockSize = 1)
    (size : values.size = matrix.rows) :
    InverseDiagonal.Shaped (.reciprocals values) matrix where
  blockSize := scalar.symm
  rows := congrArg Except.ok size
  length := size.symm

theorem standing_solve_part (process : Process α μ) (cut : Cut n rank ranks) (coupling : α)
    (usable : Arithmetic.usable diagonal = true) (rhsSize : rhs.size = n)
    (startSize : start.size = n) (positive : Arithmetic.le process.norm Solver.zeroNorm = false)
    (stops : process.StopsAfter k residuals) :
    Standing μ (partShare process.width n diagonal coupling rhs rank ranks) residuals
      (slice n rank ranks start) 0 k
      (process.solvePart n diagonal coupling rhs start rank ranks) := by
  have unfolded : process.solvePart n diagonal coupling rhs start rank ranks =
      process.program (.member rank ranks) (partMatrix n diagonal coupling rank ranks)
        (slice n rank ranks rhs) (slice n rank ranks start) := by
    unfold solvePart
    rw [part_ok cut]
    rfl
  rw [unfolded]
  exact .of_program (part_sound cut diagonal coupling) (by simp [maxBlockSize])
    (factorize_replicate usable (Part.of n rank ranks).owned) (shaped_reciprocals rfl (by simp))
    cut.owned_pos (by simp [size_slice cut rhsSize]) (by simp [size_slice cut startSize]) positive
    stops

theorem abreast_solve_parts (process : Nat → Process α μ) (fits : ranks ≤ n) (coupling : α)
    (usable : Arithmetic.usable diagonal = true) (rhsSize : rhs.size = n)
    (startSize : start.size = n)
    (positive : ∀ rank, rank < ranks →
      Arithmetic.le (process rank).norm Solver.zeroNorm = false)
    (stops : ∀ rank, rank < ranks → (process rank).StopsAfter k residuals) :
    Abreast μ (fun rank => (process rank).width) n ranks diagonal coupling rhs residuals start 0 k
      (solveParts process n diagonal coupling rhs start ranks) := by
  refine ⟨by simp [solveParts], fun rank program found => ?_⟩
  have inside : rank < ranks := by
    simpa [solveParts] using (List.getElem?_eq_some_iff.mp found).1
  have same : (process rank).solvePart n diagonal coupling rhs start rank ranks = program := by
    simpa [solveParts, inside] using found
  exact same ▸ standing_solve_part (process rank) ⟨inside, fits⟩ coupling usable rhsSize startSize
    (positive rank inside) (stops rank inside)

theorem solve_chain_stops (process : Process α μ) (some : 0 < n) (coupling : α)
    (usable : Arithmetic.usable diagonal = true) (rhsSize : rhs.size = n)
    (startSize : start.size = n) (limit : k ≤ Solver.iterationLimit)
    (positive : Arithmetic.le process.norm Solver.zeroNorm = false)
    (stops : process.StopsAfter k
      (chainResiduals process.width n diagonal coupling rhs start)) :
    ∃ outcome : Outcome α, outcome.iterations = k ∧
      process.solveChain n diagonal coupling rhs start =
        .done (.ok (outcome, chainValues n diagonal coupling rhs start k)) := by
  have sound : (chainMatrix n diagonal coupling).Sound :=
    Matrix.sound_of_assemble (chain_ok n diagonal coupling)
  have unfolded : process.solveChain n diagonal coupling rhs start =
      process.program .alone (chainMatrix n diagonal coupling) rhs start := by
    unfold solveChain
    rw [chain_ok]
  have standing : Standing μ (chainShare process.width n diagonal coupling rhs)
      (chainResiduals process.width n diagonal coupling rhs start)
      (chainValues n diagonal coupling rhs start 0) 0 k
      (process.solveChain n diagonal coupling rhs start) := by
    rw [unfolded]
    exact .of_program sound (by simp [maxBlockSize]) (factorize_replicate usable n)
      (shaped_reciprocals rfl (by simp)) some (by simp [rhsSize]) (by simp [chainValues, startSize])
      positive stops
  have sizes := size_chain_values diagonal coupling rhsSize startSize
  obtain ⟨outcome, count, ended⟩ := standing.ends_alone rfl rfl rfl
    (fun t => (sizes t).trans (Nat.mul_one n).symm) (fun _ => rfl)
    (fun t => by rw [chain_share_square]; rfl) (by omega)
  rw [Nat.zero_add] at count ended
  exact ⟨outcome, count, ended⟩

/-- In every order of their steps, ranks that each solve their part of a chain end with the
rows they own of what one process computes, if all are stopped after as many iterations. -/
theorem ranks_match_alone [SignedZeros α] (process : Nat → Process α μ) (lone : Process α ν)
    (some : 0 < ranks) (fits : ranks ≤ n) (coupling : α)
    (usable : Arithmetic.usable diagonal = true) (rhsSize : rhs.size = n)
    (startSize : start.size = n) (limit : k ≤ Solver.iterationLimit)
    (positive : ∀ rank, rank < ranks →
      Arithmetic.le (process rank).norm Solver.zeroNorm = false)
    (positive' : Arithmetic.le lone.norm Solver.zeroNorm = false)
    (stops : ∀ rank, rank < ranks → (process rank).StopsAfter k
      (ranksResiduals (fun rank => (process rank).width) n ranks diagonal coupling rhs start))
    (stops' : lone.StopsAfter k (chainResiduals lone.width n diagonal coupling rhs start)) :
    ∃ (outcome : Outcome α) (x : Array α),
      lone.solveChain n diagonal coupling rhs start = .done (.ok (outcome, x)) ∧
      outcome.iterations = k ∧ x.size = n ∧
      ∀ state, Group.Steps (Group.start (solveParts process n diagonal coupling rhs start ranks))
          state →
        state.members.length = ranks ∧
        (∀ (rank passed : Nat) (result : Except (Failure α) (Outcome α × Array α)),
          state.members[rank]? = .some ⟨.done result, passed⟩ →
            ∃ outcome' : Outcome α, outcome'.iterations = k ∧
              result = .ok (outcome', slice n rank ranks x)) ∧
        ((∀ member ∈ state.members, ∃ result, member.thread = .done result) ∨
          ∃ next, Group.Step state next) ∧
        Acc (fun later earlier => Group.Step earlier later) state := by
  obtain ⟨outcome, count, ended⟩ := lone.solve_chain_stops (Nat.lt_of_lt_of_le some fits) coupling
    usable rhsSize startSize limit positive' stops'
  have abreast := abreast_solve_parts process fits coupling usable rhsSize startSize positive stops
  obtain ⟨agreed, ends⟩ := abreast.solved fits rhsSize startSize stops'.pos limit
  refine ⟨outcome, _, ended, count, size_chain_values diagonal coupling rhsSize startSize k,
    fun state reached => ?_⟩
  obtain ⟨position, placed⟩ := Group.placed_of_reached agreed reached
  have length := placed.size.trans abreast.length
  refine ⟨length, fun rank passed result found => ?_, Group.ended_or_moves agreed reached,
    Group.placed_terminates agreed placed⟩
  obtain ⟨rounds, finished, listed⟩ := Group.done_in_round agreed reached found
  obtain ⟨outcome', count', last⟩ := ends rank (length ▸ (List.getElem?_eq_some_iff.mp found).1)
  -- that round is as good as the last one, since programs end only once
  have done : Group.Ended (Group.after (solveParts process n diagonal coupling rhs start ranks)
      (2 * k)) := (agreed _).finished last
  rw [finished.unique done, last] at listed
  cases listed
  exact ⟨outcome', count', rfl⟩

def twice (name : String) (launch : LaunchMode) : Process ℚ Unit where
  name := name
  config := { Config.standard with launch := launch }
  width := .standard
  norm := 1
  policy := ⟨fun iteration _ _ memory =>
    (if iteration < 2 then .iterating else .maxIteration, memory)⟩
  memory := ()

local instance : SquareRoot ℚ := ⟨id⟩

theorem twice_stops (name : String) (launch : LaunchMode) (residuals : Nat → ℚ) :
    (twice name launch).StopsAfter 2 residuals :=
  .later rfl (.now rfl)

theorem two_parts_match :
    ∃ outcome : Outcome ℚ,
      (twice "serial" .direct).solveChain 3 2 (-1) #[1, 2, 3] #[0, 0, 0] =
        .done (.ok (outcome, #[1, 2, 2])) ∧
      outcome.iterations = 2 ∧
      ∀ state, Group.Steps (Group.start (solveParts (fun _ => twice "split" .graph) 3 2 (-1)
          #[1, 2, 3] #[0, 0, 0] 2)) state →
        state.members.length = 2 ∧
        (∀ (rank passed : Nat) (result : Except (Failure ℚ) (Outcome ℚ × Array ℚ)),
          state.members[rank]? = .some ⟨.done result, passed⟩ →
            ∃ outcome' : Outcome ℚ, outcome'.iterations = 2 ∧
              result = .ok (outcome', slice 3 rank 2 #[1, 2, 2])) ∧
        ((∀ member ∈ state.members, ∃ result, member.thread = .done result) ∨
          ∃ next, Group.Step state next) ∧
        Acc (fun later earlier => Group.Step earlier later) state := by
  have positive : Arithmetic.le (1 : ℚ) Solver.zeroNorm = false := by cbv
  have usable : Arithmetic.usable (2 : ℚ) = true := by decide
  have values : chainValues 3 (2 : ℚ) (-1) #[1, 2, 3] #[0, 0, 0] 2 = #[1, 2, 2] := by cbv
  have rhsSize : (#[1, 2, 3] : Array ℚ).size = 3 := rfl
  have startSize : (#[0, 0, 0] : Array ℚ).size = 3 := rfl
  obtain ⟨outcome, x, ended, count, _, ranks⟩ := ranks_match_alone
    (fun _ => twice "split" .graph) (twice "serial" .direct) Nat.two_pos (by decide : 2 ≤ 3) (-1)
    usable rhsSize startSize (by decide) (fun _ _ => positive) positive
    (fun _ _ => twice_stops ..) (twice_stops ..)
  obtain ⟨_, _, ended'⟩ := (twice "serial" .direct).solve_chain_stops (Nat.succ_pos 2) (-1) usable
    rhsSize startSize (by decide) positive (twice_stops ..)
  have same : x = #[1, 2, 2] := by
    rw [ended, values] at ended'
    cases ended'
    rfl
  subst same
  exact ⟨outcome, ended, count, ranks⟩

end Process
end Relaxation

import Relaxation.Proofs.Lockstep
import Relaxation.Proofs.SafeSolve

/-!
A solve on all ranks of a group. Every decision rests on a sum that all have read, so the
ranks decide alike: they end at once or go into their loops together, they stop in the same
iteration, and none makes a call that the others leave out. Ranks whose halos match answer
each other, and then no rank fails.
-/

namespace Relaxation

open Solver Relaxation.Group

variable {α : Type}

structure Participant (α : Type) where
  solver : Solver α
  matrix : Matrix α
  request : Request α
  scope : SolveScope α (Option (Best α))

/-- Ranks of one group with the same configuration and norm. Either none of them has a halo,
or all have one over the group. -/
structure Team (config : Config α) (norm : α) (participants : List (Participant α)) : Prop where
  config : ∀ participant ∈ participants, participant.solver.config = config
  norm : ∀ participant ∈ participants, participant.request.norm = norm
  member : ∀ (rank : Nat) (participant : Participant α), participants[rank]? = some participant →
    participant.solver.communicator = .member rank participants.length
  halos : (∀ participant ∈ participants, participant.matrix.halo = none) ∨
    ∀ (rank : Nat) (participant : Participant α), participants[rank]? = some participant →
      ∃ halo, participant.matrix.halo = some halo ∧
        halo.communicator = .member rank participants.length

/-- A rank's neighbors, as it lists them: within the bounds of its vector, none twice, and each
of them lists the rank in turn and sends it as much as it expects. -/
structure Neighborly (participants : List (Participant α)) (rank : Nat) (matrix : Matrix α)
    (halo : Halo) : Prop where
  splits : matrix.rows * halo.blockSize ≤ matrix.columns * matrix.blockSize
  distinct : (halo.neighbors.map Neighbor.rank).Nodup
  sent : ∀ neighbor ∈ halo.neighbors, ∀ index ∈ neighbor.sent, index < matrix.rows * halo.blockSize
  inside : ∀ neighbor ∈ halo.neighbors,
    matrix.rows * halo.blockSize + neighbor.stop ≤ matrix.columns * matrix.blockSize
  answered : ∀ neighbor ∈ halo.neighbors, ∃ other theirs,
    participants[neighbor.rank]? = some other ∧ other.matrix.halo = some theirs ∧
      ∃ their ∈ theirs.neighbors, their.rank = rank ∧ their.sent.length = neighbor.count

structure Equipped [Arithmetic α] (participants : List (Participant α)) : Prop where
  installed : ∀ participant ∈ participants,
    Installed participant.solver participant.matrix participant.scope.device
  lent : ∀ participant ∈ participants,
    Lent participant.solver participant.request participant.scope.device
  neighborly : ∀ (rank : Nat) (participant : Participant α) (halo : Halo),
    participants[rank]? = some participant → participant.matrix.halo = some halo →
      Neighborly participants rank participant.matrix halo

abbrev Finished (α : Type) := Except (Failure α) (Outcome α) × SolveScope α (Option (Best α))

def Returned (state : State α (Finished α)) (rank : Nat) (outcome : Outcome α) : Prop :=
  ∃ last passed, state.members[rank]? = some ⟨.done (.ok outcome, last), passed⟩

def Failed (state : State α (Finished α)) (rank : Nat) : Prop :=
  ∃ failure last passed, state.members[rank]? = some ⟨.done (.error failure, last), passed⟩

/-- Outcomes that differ in where the scratch came from at most. -/
structure Agrees (left right : Outcome α) : Prop where
  state : left.state = right.state
  iterations : left.iterations = right.iterations
  residual : left.residual = right.residual
  initialResidual : left.initialResidual = right.initialResidual
  history : left.history = right.history
  atOnce : left.scratch = none ↔ right.scratch = none

theorem agrees_of_common {left right : Outcome α} (same : common left = common right) :
    Agrees left right where
  state := congrArg Common.state same
  iterations := congrArg Common.iterations same
  residual := congrArg Common.residual same
  initialResidual := congrArg Common.initialResidual same
  history := congrArg Common.history same
  atOnce := by
    have ended : left.scratch.isNone = right.scratch.isNone := congrArg Common.atOnce same
    rw [← Option.isNone_iff_eq_none, ended, Option.isNone_iff_eq_none]

variable [Arithmetic α] [SquareRoot α]

def Participant.program (window : Option UInt32) (participant : Participant α) :
    Collective α (Finished α) :=
  participant.solver.solve participant.matrix participant.request (.residual window)
    participant.scope

section Team

variable {config : Config α} {norm : α} {participants : List (Participant α)}
  {window : Option UInt32} {state : State α (Finished α)} {entered : Nat → List Call}

omit [Arithmetic α] [SquareRoot α] in
theorem Team.exchanges (team : Team config norm participants) :
    ∃ exchanging, ∀ participant ∈ participants, participant.matrix.Exchanges exchanging := by
  rcases team.halos with without | with'
  · exact ⟨false, fun participant listed => .never (without participant listed)⟩
  · refine ⟨true, fun participant listed => ?_⟩
    obtain ⟨rank, found⟩ := List.mem_iff_getElem?.mp listed
    obtain ⟨halo, present, member⟩ := with' rank participant found
    exact .always present member

theorem Team.follows (team : Team config norm participants) (window : Option UInt32) :
    ∃ exchanging, ∀ program ∈ participants.map (Participant.program window),
      Follows (answers common) program (solveScript exchanging config norm window) := by
  obtain ⟨exchanging, exchanges⟩ := team.exchanges
  refine ⟨exchanging, fun program made => ?_⟩
  obtain ⟨participant, listed, rfl⟩ := List.mem_map.mp made
  obtain ⟨rank, found⟩ := List.mem_iff_getElem?.mp listed
  rw [← team.config participant listed, ← team.norm participant listed]
  exact follows_solve (team.member rank participant found) (exchanges participant listed) _ _

def exchangesOf (participants : List (Participant α)) (rank : Nat) (neighbors : List Neighbor)
    (owned ghost : Array α) : Prop :=
  ∃ participant, participants[rank]? = some participant ∧
    participant.matrix.Swaps neighbors owned ghost

omit [SquareRoot α] in
theorem Equipped.meets (equipped : Equipped participants) :
    Meets (Finished α) (exchangesOf participants) participants.length := by
  intro programs length fit rank program found
  obtain ⟨neighbors, owned, ghost, next, rfl, participant, listed, halo, present, swaps⟩ :=
    fit rank program found
  obtain ⟨splits, distinct, sent, inside, answered⟩ :=
    equipped.neighborly rank participant halo listed present
  obtain ⟨rfl, split, extended⟩ := swaps
  refine ⟨halo.neighbors, owned, ghost, next, rfl, distinct, ?_, ?_, ?_⟩
  · rwa [split]
  · intro neighbor member
    have bound := inside neighbor member
    omega
  · intro neighbor member
    obtain ⟨other, theirs, listed', present', their, back, named, count⟩ := answered neighbor member
    have within : neighbor.rank < programs.length :=
      length.symm ▸ (List.getElem?_eq_some_iff.mp listed').1
    have found' := List.getElem?_eq_getElem within
    obtain ⟨_, data, held, next', same, _, listed'', _, present'', swaps'⟩ :=
      fit neighbor.rank _ found'
    cases listed'.symm.trans listed''
    cases present'.symm.trans present''
    obtain ⟨rfl, _, _⟩ := swaps'
    exact ⟨_, data, held, next', found'.trans (congrArg some same), their, back, named, count⟩

theorem Team.safely (team : Team config norm participants) (equipped : Equipped participants)
    (window : Option UInt32) : ∃ script, Safely (answers common) (exchangesOf participants)
      (participants.map (Participant.program window)) script := by
  obtain ⟨exchanging, follows⟩ := team.follows window
  obtain ⟨exchanging', exchanges⟩ := team.exchanges
  refine ⟨_, follows, fun rank program found => ?_⟩
  rw [List.getElem?_map] at found
  obtain ⟨participant, listed, rfl⟩ := Option.map_eq_some_iff.mp found
  have member := List.mem_of_getElem? listed
  have splits : participant.matrix.Splits := fun halo present =>
    (equipped.neighborly rank participant halo listed present).splits
  have safe := safe_solve window (team.member rank participant listed) (exchanges _ member) splits
    participant.scope (equipped.installed participant member) (equipped.lent participant member)
  refine safe.mono (fun _ _ _ fit => ⟨participant, listed, fit⟩) ?_
  rintro ⟨_, after⟩ ⟨outcome, rfl, _⟩
  exact Option.some_ne_none _

theorem Team.unfailing (team : Team config norm participants) (equipped : Equipped participants)
    (runs : Runs (participants.map (Participant.program window)) state entered) (rank : Nat) :
    ¬Failed state rank := by
  rintro ⟨failure, last, passed, found⟩
  obtain ⟨script, safely⟩ := team.safely equipped window
  have meets := equipped.meets
  rw [← List.length_map (Participant.program window)] at meets
  exact safely.shows meets (steps_iff_runs.mpr ⟨_, runs⟩) found rfl

omit [SquareRoot α] in
theorem returned_or_moves {script : Script α (Common α)} {totals : Nat → α} {position : Nat → Nat}
    (inStep : InStep (answers common) script totals entered state position)
    (sound : ¬∃ rank, Failed state rank) :
    (∀ rank, rank < state.members.length → ∃ outcome, Returned state rank outcome) ∨
      ∃ next, Step state next := by
  have succeeded : ∀ (rank : Nat) (member : Member α (Finished α)) result,
      state.members[rank]? = some member → member.thread = .done result →
        ∃ outcome, result.1 = .ok outcome := by
    rintro rank ⟨thread, passed⟩ ⟨answer, last⟩ found rfl
    cases answer with
    | ok outcome => exact ⟨outcome, rfl⟩
    | error failure => exact absurd ⟨rank, failure, last, passed, found⟩ sound
  have shown : ∀ (rank : Nat) (member : Member α (Finished α)) result,
      state.members[rank]? = some member → member.thread = .done result →
        ∃ shown, answers common result = some shown := by
    intro rank member result found ended
    obtain ⟨outcome, same⟩ := succeeded rank member result found ended
    exact ⟨common outcome, by rw [answers, same]⟩
  refine (inStep.progress shown).imp_left fun finished rank inside => ?_
  have found := List.getElem?_eq_getElem inside
  generalize state.members[rank] = member at found
  obtain ⟨thread, passed⟩ := member
  obtain ⟨⟨answer, last⟩, ended⟩ := finished _ (List.mem_of_getElem? found)
  obtain ⟨outcome, same⟩ := succeeded rank _ _ found ended
  cases (show thread = _ from ended)
  cases (show answer = _ from same)
  exact ⟨outcome, last, passed, found⟩

end Team

section Pair

local instance idRoot : SquareRoot ℚ := ⟨id⟩

def pairConfig : Config ℚ :=
  { Config.standard with maxIterations := 1 }

def rowMatrix (rank : Nat) : Matrix ℚ :=
  ⟨1, 2, 1, #[1], #[1], #[1], #[0, 1],
    some (.ofBlockRows (.member rank 2) [⟨1 - rank, [0], 0, 1⟩] 1)⟩

def rowSolver : Solver ℚ :=
  ⟨"row", pairConfig, .scalar, 1, ⟨0⟩, ⟨1⟩, .alone, Statistics.recordSetup {} 0⟩

def rowMade : Device ℚ :=
  ⟨.narrowest, #[#[1], #[1]], {}, #[.setupSpan "row", .setUp "jacobi" 1 1 "host"]⟩

def rowParticipant (rank : Nat) (rhs : ℚ) : Participant ℚ where
  solver := rowSolver.withCommunicator (.member rank 2)
  matrix := rowMatrix rank
  request := ⟨⟨2⟩, ⟨3⟩, 1, none⟩
  scope := ⟨{ rowMade with buffers := #[#[1], #[1], #[rhs], #[1]] }, {}, none⟩

def pair : List (Participant ℚ) :=
  [rowParticipant 0 3, rowParticipant 1 4]

theorem team_pair : Team pairConfig 1 pair := by
  refine ⟨?_, by simp [pair, rowParticipant], ?_, .inr ?_⟩
  · simp [pair, rowParticipant, withCommunicator, rowSolver]
  · intro rank participant found
    have inside : rank < 2 := (List.getElem?_eq_some_iff.mp found).1
    interval_cases rank <;> cases found <;> rfl
  · intro rank participant found
    have inside : rank < 2 := (List.getElem?_eq_some_iff.mp found).1
    interval_cases rank <;> cases found <;> exact ⟨_, rfl, rfl⟩

theorem installed_row (rank : Nat) (rhs : ℚ) : Installed (rowParticipant rank rhs).solver
    (rowMatrix rank) (rowParticipant rank rhs).scope.device := by
  have sound : (rowMatrix rank).Sound := by
    refine ⟨Nat.one_pos, Nat.le_succ 1, rfl, rfl, fun row inside => ?_, rfl, by simp [rowMatrix]⟩
    cases Nat.lt_one_iff.mp inside
    exact Nat.le_refl 1
  have ran : (setupWithInverse "row" (rowMatrix rank) pairConfig (.reciprocals #[1]) :
      DeviceM ℚ (Solver ℚ)) (.create .narrowest) = (.ok rowSolver, rowMade) := rfl
  have kept : rowMade.Extends (rowParticipant rank rhs).scope.device := by
    refine ⟨rfl, (by decide : 2 ≤ 4), ?_⟩
    rintro ⟨index⟩ held
    have small : index < 2 := held
    interval_cases index <;> rfl
  exact ((installed_of_setup sound ran).of_extends kept).with_communicator (.member rank 2)

theorem equipped_pair : Equipped pair := by
  have each : ∀ participant ∈ pair, ∃ rank rhs, participant = rowParticipant rank rhs := by
    simp [pair]
  refine ⟨?_, ?_, fun rank participant halo listed present => ?_⟩
  · intro participant listed
    obtain ⟨rank, rhs, rfl⟩ := each participant listed
    exact installed_row rank rhs
  · intro participant listed
    obtain ⟨rank, rhs, rfl⟩ := each participant listed
    exact ⟨(by decide : 2 < 4), (by decide : 3 < 4), Nat.le_refl 1, Nat.le_refl 1,
      by simp [rowParticipant, rowSolver, withCommunicator], by simp [rowParticipant]⟩
  · have inside : rank < 2 := (List.getElem?_eq_some_iff.mp listed).1
    interval_cases rank
    · cases listed
      cases present
      refine ⟨by decide, by decide, by decide, by decide, fun neighbor member => ?_⟩
      cases List.mem_singleton.mp member
      exact ⟨rowParticipant 1 4, _, rfl, rfl, _, List.mem_singleton_self _, rfl, rfl⟩
    · cases listed
      cases present
      refine ⟨by decide, by decide, by decide, by decide, fun neighbor member => ?_⟩
      cases List.mem_singleton.mp member
      exact ⟨rowParticipant 0 3, _, rfl, rfl, _, List.mem_singleton_self _, rfl, rfl⟩

theorem pair_hears {rank : Nat} (inside : rank < 2) : ∃ outcome last, outcome.history = #[5] ∧
    (after (pair.map (Participant.program none)) 2)[rank]? = some (.done (.ok outcome, last)) := by
  have heard : (after (pair.map (Participant.program none)) 2).map
      (fun program => program.answer?.map Outcome.history) = [some #[5], some #[5]] := by
    decide +kernel
  have each : ([some #[5], some #[5]] : List (Option (Array ℚ)))[rank]? = some (some #[5]) := by
    interval_cases rank <;> rfl
  rw [← heard, List.getElem?_map] at each
  obtain ⟨program, listed, shown⟩ := Option.map_eq_some_iff.mp each
  obtain ⟨outcome, answered, history⟩ := Option.map_eq_some_iff.mp shown
  obtain ⟨last, rfl⟩ := Collective.done_of_answer answered
  exact ⟨outcome, last, history, listed⟩

end Pair
end Relaxation

import Relaxation.Proofs.Interleaving
import Relaxation.Proofs.Iteration
import Relaxation.Proofs.Script

/-!
Programs that cannot fail as long as their calls are answered. Ranks that follow one script
and whose exchanges match answer each other in every round, so none of them fails in any
order of their steps.
-/

namespace Relaxation

variable {α β γ δ ε σ : Type}

/-- A program that comes to a good end, whatever totals it is told and whatever comes in for
its ghost values. Its exchanges are such as `fits` allows. -/
inductive Collective.Safe (fits : List Neighbor → Array α → Array α → Prop) (good : β → Prop) :
    Collective α β → Prop where
  | done {result : β} (holds : good result) : Safe fits good (.done result)
  | sum {value : α} {next : α → Collective α β} (rest : ∀ total, Safe fits good (next total)) :
      Safe fits good (.sum value next)
  | exchange {neighbors : List Neighbor} {owned ghost : Array α}
      {next : Exchanged α → Collective α β} (fit : fits neighbors owned ghost)
      (rest : ∀ filled : Array α, filled.size = ghost.size → Safe fits good (next (.ok (), filled))) :
      Safe fits good (.exchange neighbors owned ghost next)

namespace Collective

variable {fits fits' : List Neighbor → Array α → Array α → Prop} {good : β → Prop}
  {good' : γ → Prop} {program : Collective α β}

theorem Safe.holds {result : β} (safe : (.done result : Collective α β).Safe fits good) :
    good result := by
  obtain ⟨holds⟩ := safe
  exact holds

theorem Safe.bind {next : β → Collective α γ} (safe : program.Safe fits good)
    (rest : ∀ result, good result → (next result).Safe fits good') :
    (program.bind next).Safe fits good' := by
  induction safe with
  | done holds => exact rest _ holds
  | sum _ ih => exact .sum ih
  | exchange fit _ ih => exact .exchange fit ih

theorem Safe.mono {good' : β → Prop} (safe : program.Safe fits good)
    (wider : ∀ neighbors owned ghost, fits neighbors owned ghost → fits' neighbors owned ghost)
    (weaker : ∀ result, good result → good' result) : program.Safe fits' good' := by
  induction safe with
  | done holds => exact .done (weaker _ holds)
  | sum _ ih => exact .sum ih
  | exchange fit _ ih => exact .exchange (wider _ _ _ fit) ih

theorem Safe.of_related {R : γ → β → Prop} {left : Collective α γ} (safe : program.Safe fits good)
    (related : Related R left program)
    (holds : ∀ result other, R result other → good other → good' result) :
    left.Safe fits good' := by
  induction safe generalizing left with
  | done ends =>
      obtain ⟨same⟩ | _ | _ := related
      exact .done (holds _ _ same ends)
  | sum _ ih =>
      obtain _ | ⟨nexts⟩ | _ := related
      exact .sum fun total => ih total (nexts total)
  | exchange fit _ ih =>
      obtain _ | _ | ⟨nexts⟩ := related
      exact .exchange fit fun filled size => ih filled size (nexts _)

end Collective

def Succeeds (holds : β → σ → Prop) (finished : Except ε β × σ) : Prop :=
  ∃ value, finished.1 = .ok value ∧ holds value finished.2

section Meeting

variable {fits : List Neighbor → Array α → Array α → Prop} {holds : β → σ → Prop}
  {holds' : γ → σ → Prop} {first : ExceptT ε (StateT σ (Collective α)) β}
  {next : β → ExceptT ε (StateT σ (Collective α)) γ} {before : σ}

theorem safe_meet (safe : (first before).Safe fits (Succeeds holds))
    (rest : ∀ value after, holds value after → (next value after).Safe fits (Succeeds holds')) :
    ((first >>= next) before).Safe fits (Succeeds holds') := by
  rw [meet_bind]
  refine safe.bind ?_
  rintro ⟨_, after⟩ ⟨value, rfl, given⟩
  exact rest value after given

end Meeting

namespace Group

/-- Ranks that answer each other can all be brought to their end, and each ends with what its
rounds come to. -/
theorem Joined.completes [Arithmetic α] {programs : List (Collective α β)}
    (joined : Joined programs) : ∃ state, Steps (start programs) state ∧
      ∃ rounds, Ended (after programs rounds) ∧ ∀ (rank : Nat) (result : β),
        (after programs rounds)[rank]? = some (.done result) →
          ∃ passed, state.members[rank]? = some ⟨.done result, passed⟩ := by
  have goes : ∀ state, Acc (fun later earlier => Step earlier later) state →
      Steps (start programs) state → ∃ last, Steps (start programs) last ∧
        ∃ position rounds, Placed programs last position ∧ Ended (after programs rounds) ∧
          ∀ rank, rank < programs.length → position rank = 4 * rounds := by
    intro state finite
    induction finite with
    | intro state _ ih =>
        intro reached
        obtain ⟨position, placed⟩ := placed_of_reached joined reached
        rcases placed_progress joined placed with ⟨rounds, finished, last⟩ | ⟨next, step⟩
        · exact ⟨state, reached, position, rounds, placed, finished, last⟩
        · exact ih next step (reached.tail step)
  obtain ⟨state, reached, position, rounds, placed, finished, last⟩ :=
    goes _ (placed_terminates joined (placed_start programs)) (.refl _)
  exact ⟨state, reached, rounds, finished, fun rank result found => ⟨_, placed.ended last found⟩⟩

variable [Arithmetic α] {view : β → Option δ} {programs : List (Collective α β)}
  {script : Script α δ} {fits : Nat → List Neighbor → Array α → Array α → Prop}

structure Safely (view : β → Option δ) (fits : Nat → List Neighbor → Array α → Array α → Prop)
    (programs : List (Collective α β)) (script : Script α δ) : Prop where
  follows : ∀ program ∈ programs, Follows view program script
  safe : ∀ (rank : Nat) (program : Collective α β), programs[rank]? = some program →
    program.Safe (fits rank) fun result => view result ≠ none

def Meets (β : Type) (fits : Nat → List Neighbor → Array α → Array α → Prop) (ranks : Nat) : Prop :=
  ∀ programs : List (Collective α β), programs.length = ranks →
    (∀ rank program, programs[rank]? = some program → ∃ neighbors owned ghost next,
      program = .exchange neighbors owned ghost next ∧ fits rank neighbors owned ghost) →
    Met programs

omit [Arithmetic α] in
theorem Safely.joint (safely : Safely view fits programs script)
    (meets : Meets β fits programs.length) : Joint programs := by
  cases script with
  | stop shown =>
      refine .ended fun program listed => ?_
      cases safely.follows program listed with
      | failed | stop => exact ⟨_, rfl⟩
  | sum next =>
      refine .sum fun program listed => ?_
      obtain ⟨rank, found⟩ := List.mem_iff_getElem?.mp listed
      have safe := safely.safe rank program found
      cases safely.follows program listed with
      | failed lost => exact absurd lost safe.holds
      | sum => exact ⟨_, _, rfl⟩
  | exchange next =>
      refine .exchange (meets programs rfl fun rank program found => ?_)
      have safe := safely.safe rank program found
      cases safely.follows program (List.mem_of_getElem? found) with
      | failed lost => exact absurd lost safe.holds
      | exchange =>
          obtain _ | _ | ⟨fit, _⟩ := safe
          exact ⟨_, _, _, _, rfl, fit⟩

theorem Safely.next (safely : Safely view fits programs script) :
    Safely view fits (after programs 1) (script.next (Arithmetic.total (programs.map addend))) := by
  have behind : ∀ rank program, (after programs 1)[rank]? = some program →
      ∃ before, programs[rank]? = some before ∧ program = proceed programs rank before := by
    intro rank program found
    rw [getElem?_after_succ] at found
    obtain ⟨before, listed, rfl⟩ := Option.map_eq_some_iff.mp found
    exact ⟨before, listed, rfl⟩
  constructor
  · intro program listed
    obtain ⟨rank, found⟩ := List.mem_iff_getElem?.mp listed
    obtain ⟨before, called, rfl⟩ := behind rank program found
    have safe := safely.safe rank before called
    cases safely.follows before (List.mem_of_getElem? called) with
    | failed lost => exact absurd lost safe.holds
    | stop result => exact .stop result
    | sum rest => exact rest _
    | exchange answered => exact answered _
  · intro rank program found
    obtain ⟨before, called, rfl⟩ := behind rank program found
    obtain ends | rest | ⟨_, rest⟩ := safely.safe rank before called
    · exact .done ends
    · exact rest _
    · exact rest _ (Shared.size_filled ..)

theorem Safely.after (safely : Safely view fits programs script) (rounds : Nat) :
    ∃ left, Safely view fits (after programs rounds) left := by
  induction rounds with
  | zero => exact ⟨script, safely⟩
  | succ rounds ih =>
      obtain ⟨left, here⟩ := ih
      exact ⟨_, here.next⟩

theorem Safely.joined (safely : Safely view fits programs script)
    (meets : Meets β fits programs.length) : Joined programs := by
  intro rounds
  obtain ⟨left, here⟩ := safely.after rounds
  exact here.joint ((length_after programs rounds).symm ▸ meets)

theorem Safely.shows (safely : Safely view fits programs script)
    (meets : Meets β fits programs.length) {state : State α β}
    (reached : Steps (start programs) state) {rank passed : Nat} {result : β}
    (found : state.members[rank]? = some ⟨.done result, passed⟩) :
    view result ≠ none := by
  obtain ⟨rounds, _, listed⟩ := done_in_round (safely.joined meets) reached found
  obtain ⟨left, here⟩ := safely.after rounds
  exact (here.safe rank _ listed).holds

end Group
end Relaxation

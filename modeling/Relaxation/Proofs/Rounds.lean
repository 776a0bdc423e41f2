import Mathlib.Data.List.Forall2
import Relaxation.Proofs.Mailbox

/-!
Collective calls in rounds. The ranks of a group agree on their calls when in every
round all sum, or all exchange with neighbors that match; then every rank has a
defined answer and a next round to be in.
-/

namespace Relaxation.Group

variable {α β : Type}

def addend [Zero α] : Collective α β → α
  | .sum value _ => value
  | _ => 0

def outgoing : Collective α β → Nat → Option (Array α)
  | .exchange neighbors owned _ _, receiver =>
    (neighbors.find? fun neighbor => neighbor.rank == receiver).map (Neighbor.packed · owned)
  | _, _ => none

def incoming (programs : List (Collective α β)) (receiver sender : Nat) : Array α :=
  (programs[sender]?.bind (outgoing · receiver)).getD #[]

/-- A rank's neighbors in an exchange, and its vector beside them: the ranges it
fills do not meet, and each neighbor lists it in turn and sends as much as is
expected. -/
structure Matching (programs : List (Collective α β)) (rank : Nat) (neighbors : List Neighbor)
    (owned ghost : Array α) : Prop where
  distinct : (neighbors.map Neighbor.rank).Nodup
  sent : ∀ neighbor ∈ neighbors, ∀ index ∈ neighbor.sent, index < owned.size
  inside : ∀ neighbor ∈ neighbors, neighbor.stop ≤ ghost.size
  apart : neighbors.Pairwise fun a b => ∀ index, a.Covers index → ¬ b.Covers index
  answered : ∀ neighbor ∈ neighbors, ∃ theirs data held next,
    programs[neighbor.rank]? = some (.exchange theirs data held next) ∧
      ∃ their ∈ theirs, their.rank = rank ∧ their.sent.length = neighbor.count

/-- What an exchange needs to go through. Ranges that meet do not stop it. -/
structure Meeting (programs : List (Collective α β)) (rank : Nat) (neighbors : List Neighbor)
    (owned ghost : Array α) : Prop where
  distinct : (neighbors.map Neighbor.rank).Nodup
  sent : ∀ neighbor ∈ neighbors, ∀ index ∈ neighbor.sent, index < owned.size
  inside : ∀ neighbor ∈ neighbors, neighbor.stop ≤ ghost.size
  answered : ∀ neighbor ∈ neighbors, ∃ theirs data held next,
    programs[neighbor.rank]? = some (.exchange theirs data held next) ∧
      ∃ their ∈ theirs, their.rank = rank ∧ their.sent.length = neighbor.count

def Matched (programs : List (Collective α β)) : Prop :=
  ∀ rank program, programs[rank]? = some program →
    ∃ neighbors owned ghost next, program = .exchange neighbors owned ghost next ∧
      Matching programs rank neighbors owned ghost

def Ended (programs : List (Collective α β)) : Prop :=
  ∀ program ∈ programs, ∃ result, program = .done result

inductive Together (programs : List (Collective α β)) : Prop where
  | ended (finished : Ended programs)
  | sum (summing : ∀ program ∈ programs, ∃ value next, program = .sum value next)
  | exchange (matched : Matched programs)

def Met (programs : List (Collective α β)) : Prop :=
  ∀ rank program, programs[rank]? = some program →
    ∃ neighbors owned ghost next, program = .exchange neighbors owned ghost next ∧
      Meeting programs rank neighbors owned ghost

inductive Joint (programs : List (Collective α β)) : Prop where
  | ended (finished : Ended programs)
  | sum (summing : ∀ program ∈ programs, ∃ value next, program = .sum value next)
  | exchange (met : Met programs)

theorem Matched.met {programs : List (Collective α β)} (matched : Matched programs) :
    Met programs := by
  intro rank program found
  obtain ⟨neighbors, owned, ghost, next, same, matching⟩ := matched rank program found
  exact ⟨neighbors, owned, ghost, next, same, matching.distinct, matching.sent, matching.inside,
    matching.answered⟩

theorem Together.joint {programs : List (Collective α β)} (together : Together programs) :
    Joint programs := by
  cases together with
  | ended finished => exact .ended finished
  | sum summing => exact .sum summing
  | exchange matched => exact .exchange matched.met

theorem Joint.met {programs : List (Collective α β)} (joint : Joint programs)
    {rank : Nat} {neighbors : List Neighbor} {owned ghost : Array α}
    {next : Exchanged α → Collective α β}
    (found : programs[rank]? = some (.exchange neighbors owned ghost next)) :
    Met programs := by
  cases joint with
  | ended finished =>
      obtain ⟨result, same⟩ := finished _ (List.mem_of_getElem? found)
      cases same
  | sum summing =>
      obtain ⟨value, next', same⟩ := summing _ (List.mem_of_getElem? found)
      cases same
  | exchange met => exact met

theorem Joint.summing {programs : List (Collective α β)} (joint : Joint programs)
    {rank : Nat} {value : α} {next : α → Collective α β}
    (found : programs[rank]? = some (.sum value next)) :
    ∀ program ∈ programs, ∃ value next, program = .sum value next := by
  cases joint with
  | ended finished =>
      obtain ⟨result, same⟩ := finished _ (List.mem_of_getElem? found)
      cases same
  | sum summing => exact summing
  | exchange met =>
      obtain ⟨_, _, _, _, same, _⟩ := met rank _ found
      cases same

theorem Joint.finished {programs : List (Collective α β)} (joint : Joint programs)
    {rank : Nat} {result : β} (found : programs[rank]? = some (.done result)) :
    Ended programs := by
  cases joint with
  | ended finished => exact finished
  | sum summing =>
      obtain ⟨value, next, same⟩ := summing _ (List.mem_of_getElem? found)
      cases same
  | exchange met =>
      obtain ⟨_, _, _, _, same, _⟩ := met rank _ found
      cases same

section Exchange

variable {programs : List (Collective α β)} {rank : Nat} {neighbors : List Neighbor}
  {owned ghost : Array α} {next : Exchanged α → Collective α β}

theorem Met.meeting (met : Met programs)
    (found : programs[rank]? = some (.exchange neighbors owned ghost next)) :
    Meeting programs rank neighbors owned ghost := by
  obtain ⟨neighbors', owned', ghost', next', same, meeting⟩ := met rank _ found
  cases same
  exact meeting

theorem outgoing_of_listed (distinct : (neighbors.map Neighbor.rank).Nodup) {neighbor : Neighbor}
    (listed : neighbor ∈ neighbors) :
    outgoing (.exchange neighbors owned ghost next) neighbor.rank =
      some (neighbor.packed owned) := by
  have found : neighbors.find? (fun other => other.rank == neighbor.rank) = some neighbor := by
    induction neighbors with
    | nil => cases listed
    | cons first rest ih =>
        obtain ⟨fresh, distinctRest⟩ := List.nodup_cons.mp distinct
        rcases List.mem_cons.mp listed with same | later
        · subst same
          simp
        · have other : first.rank ≠ neighbor.rank := fun same =>
            fresh (same ▸ List.mem_map_of_mem later)
          simpa [other] using ih distinctRest later
  simp only [outgoing, found, Option.map_some]

theorem listed_of_outgoing {receiver : Nat} {data : Array α}
    (sends : outgoing (.exchange neighbors owned ghost next) receiver = some data) :
    ∃ neighbor ∈ neighbors, neighbor.rank = receiver ∧ data = neighbor.packed owned := by
  unfold outgoing at sends
  obtain ⟨neighbor, found, same⟩ := Option.map_eq_some_iff.mp sends
  exact ⟨neighbor, List.mem_of_find?_eq_some found, by simpa using List.find?_some found,
    same.symm⟩

theorem Met.incoming_eq (met : Met programs)
    (found : programs[rank]? = some (.exchange neighbors owned ghost next))
    {neighbor : Neighbor} (listed : neighbor ∈ neighbors) :
    ∃ theirs data held next their,
      programs[neighbor.rank]? = some (.exchange theirs data held next) ∧
        their ∈ theirs ∧ their.rank = rank ∧ their.sent.length = neighbor.count ∧
        (∀ index ∈ their.sent, index < data.size) ∧
        outgoing (.exchange theirs data held next) rank = some (their.packed data) ∧
        incoming programs rank neighbor.rank = their.packed data := by
  obtain ⟨theirs, data, held, next', other, their, member, same, length⟩ :=
    (met.meeting found).answered neighbor listed
  have meeting := met.meeting other
  have sends : outgoing (.exchange theirs data held next') rank = some (their.packed data) := by
    rw [← same]
    exact outgoing_of_listed meeting.distinct member
  refine ⟨theirs, data, held, next', their, other, member, same, length,
    meeting.sent their member, sends, ?_⟩
  simp [incoming, other, sends]

theorem Met.size_incoming (met : Met programs)
    (found : programs[rank]? = some (.exchange neighbors owned ghost next)) :
    ∀ neighbor ∈ neighbors, (incoming programs rank neighbor.rank).size = neighbor.count := by
  intro neighbor listed
  obtain ⟨_, _, _, _, their, _, _, _, length, inside, _, same⟩ :=
    met.incoming_eq found listed
  rw [same, Neighbor.size_packed inside, length]

end Exchange

section Answers

variable [Arithmetic α]

def proceed (programs : List (Collective α β)) (rank : Nat) : Collective α β → Collective α β
  | .done result => .done result
  | .sum _ next => next (Arithmetic.total (programs.map addend))
  | .exchange neighbors _ ghost next =>
    next (.ok (), Shared.filled (incoming programs rank) neighbors ghost)

def after (programs : List (Collective α β)) : Nat → List (Collective α β)
  | 0 => programs
  | rounds + 1 => (after programs rounds).mapIdx (proceed (after programs rounds))

def Agreed (programs : List (Collective α β)) : Prop :=
  ∀ rounds, Together (after programs rounds)

def Joined (programs : List (Collective α β)) : Prop :=
  ∀ rounds, Joint (after programs rounds)

theorem Agreed.joined {programs : List (Collective α β)} (agreed : Agreed programs) :
    Joined programs :=
  fun rounds => (agreed rounds).joint

@[simp] theorem length_after (programs : List (Collective α β)) (rounds : Nat) :
    (after programs rounds).length = programs.length := by
  induction rounds with
  | zero => rfl
  | succ rounds ih => simp [after, ih]

theorem getElem?_after_succ (programs : List (Collective α β)) (rounds rank : Nat) :
    (after programs (rounds + 1))[rank]? =
      (after programs rounds)[rank]?.map (proceed (after programs rounds) rank) := by
  simp [after]

theorem after_after (programs : List (Collective α β)) (first rounds : Nat) :
    after (after programs first) rounds = after programs (first + rounds) := by
  induction rounds with
  | zero => rfl
  | succ rounds ih => rw [← Nat.add_assoc, after, after, ih]

theorem Ended.after_eq {programs : List (Collective α β)} (finished : Ended programs) (rounds : Nat) :
    after programs rounds = programs := by
  induction rounds with
  | zero => rfl
  | succ rounds ih =>
      apply List.ext_getElem?
      intro rank
      rw [getElem?_after_succ, ih]
      cases found : programs[rank]? with
      | none => rfl
      | some program =>
          obtain ⟨result, rfl⟩ := finished program (List.mem_of_getElem? found)
          rfl

/-- What a call returns, said without the slots and the mailbox: the values of all ranks, added
to minus zero from the first rank's to the last one's, or a ghost vector in which every neighbor's
range shows the values that the neighbor gathered in this round and everything else is as it was. -/
inductive Returned (programs : List (Collective α β)) (rank : Nat) :
    Collective α β → Collective α β → Prop where
  | sum (value : α) (next : α → Collective α β) (values : List α)
      (given : List.Forall₂ (fun program value => ∃ next, program = .sum value next) programs
        values) :
      Returned programs rank (.sum value next) (next (values.foldl (· + ·) (-0)))
  | exchange (neighbors : List Neighbor) (owned ghost : Array α)
      (next : Exchanged α → Collective α β) (filled : Array α)
      (size : filled.size = ghost.size)
      (received : ∀ neighbor ∈ neighbors, ∃ theirs data held next their,
        programs[neighbor.rank]? = some (.exchange theirs data held next) ∧
          their ∈ theirs ∧ their.rank = rank ∧
          ∀ k, k < neighbor.count →
            filled[neighbor.start + k]? = their.sent[k]?.bind fun index => data[index]?)
      (kept : ∀ index, (∀ neighbor ∈ neighbors, ¬ neighbor.Covers index) →
        filled[index]? = ghost[index]?) :
      Returned programs rank (.exchange neighbors owned ghost next) (next (.ok (), filled))

theorem returned_proceed {programs : List (Collective α β)} (together : Together programs)
    {rank : Nat} {program : Collective α β} (found : programs[rank]? = some program)
    (calls : ∀ result, program ≠ .done result) :
    Returned programs rank program (proceed programs rank program) := by
  cases together with
  | ended finished =>
      obtain ⟨result, same⟩ := finished program (List.mem_of_getElem? found)
      exact absurd same (calls result)
  | sum summing =>
      obtain ⟨value, next, rfl⟩ := summing program (List.mem_of_getElem? found)
      refine .sum value next (programs.map addend) ?_
      rw [List.forall₂_map_right_iff]
      refine List.forall₂_same.mpr fun other listed => ?_
      obtain ⟨theirs, behind, rfl⟩ := summing other listed
      exact ⟨behind, rfl⟩
  | exchange matched =>
      obtain ⟨neighbors, owned, ghost, next, rfl, matching⟩ := matched rank program found
      have sizes := matched.met.size_incoming found
      refine .exchange neighbors owned ghost next _ (Shared.size_filled ..) ?_ ?_
      · -- the neighbor's entry for this rank says which of its values it gathers
        intro neighbor listed
        obtain ⟨theirs, data, held, next', their, other, member, same, _, inside, _, arrives⟩ :=
          matched.met.incoming_eq found listed
        refine ⟨theirs, data, held, next', their, other, member, same, fun k bound => ?_⟩
        rw [Shared.getElem?_filled_inside sizes matching.inside matching.apart listed bound,
          arrives, Neighbor.getElem?_packed inside]
      · exact fun index outside => Shared.getElem?_filled_outside sizes outside

/-- Programs that keep together come to an end. The induction is on the calls of the first
rank, which are those of all. -/
theorem joined_ends {programs : List (Collective α β)} (joined : Joined programs) :
    ∃ rounds, Ended (after programs rounds) := by
  cases shape : programs with
  | nil => exact ⟨0, fun _ member => nomatch member⟩
  | cons lead others =>
      have first : programs[0]? = some lead := by simp [shape]
      rw [← shape]
      clear shape
      induction lead generalizing programs with
      | done result =>
          cases joined 0 with
          | ended finished => exact ⟨0, finished⟩
          | sum summing =>
              obtain ⟨_, _, same⟩ := summing _ (List.mem_of_getElem? first)
              cases same
          | exchange met =>
              obtain ⟨_, _, _, _, same, _⟩ := met 0 _ first
              cases same
      | sum value next ih =>
          obtain ⟨rounds, finished⟩ := @ih _ (after programs 1)
            (fun rounds => after_after programs 1 rounds ▸ joined _)
            ((getElem?_after_succ programs 0 0).trans (by rw [after, first]; rfl))
          exact ⟨1 + rounds, after_after programs 1 rounds ▸ finished⟩
      | exchange neighbors owned ghost next ih =>
          obtain ⟨rounds, finished⟩ := @ih _ (after programs 1)
            (fun rounds => after_after programs 1 rounds ▸ joined _)
            ((getElem?_after_succ programs 0 0).trans (by rw [after, first]; rfl))
          exact ⟨1 + rounds, after_after programs 1 rounds ▸ finished⟩

end Answers
end Relaxation.Group

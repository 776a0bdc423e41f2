import Relaxation.Proofs.Rounds

/-!
One barrier for both phases of every collective call. A rank takes four steps in a
call: it writes, passes the barrier, reads, and passes the barrier again. No rank is
ever two barriers ahead of another, so what is written in a call stays until every
rank has read it.
-/

namespace Relaxation.Group

variable {α β : Type} [Arithmetic α]

def reading : Collective α β → Thread α β
  | .done result => .done result
  | .sum _ next => .total fun total => .wait (next total).thread
  | .exchange neighbors _ ghost next => .collect neighbors ghost fun answer =>
    match answer.1 with
    | .error _ => (next answer).thread
    | .ok () => .wait (next answer).thread

def threadAt (programs : List (Collective α β)) (rank : Nat) (program : Collective α β) :
    Nat → Thread α β
  | 0 => program.thread
  | 1 => .wait (reading program)
  | 2 => reading program
  | _ => .wait (proceed programs rank program).thread

/-- Whether a message has been posted and not yet been collected, when `position`
counts the steps of each rank. -/
def InFlight (programs : List (Collective α β)) (position : Nat → Nat)
    (sender receiver : Nat) (data : Array α) : Prop :=
  1 ≤ position sender % 4 ∧ position receiver ≤ 4 * (position sender / 4) + 2 ∧
    (after programs (position sender / 4))[sender]?.bind (outgoing · receiver) = some data

/-- Where every rank is, counted in steps, four to a call. Slots show what the ranks
wrote in their calls, and the mailbox holds what is in flight. -/
structure Placed (programs : List (Collective α β)) (state : State α β)
    (position : Nat → Nat) : Prop where
  size : state.members.length = programs.length
  slotsSize : state.shared.slots.length = programs.length
  member : ∀ rank program, (after programs (position rank / 4))[rank]? = some program →
    state.members[rank]? = some
      ⟨threadAt (after programs (position rank / 4)) rank program (position rank % 4),
        position rank / 2⟩
  near : ∀ i j, i < programs.length → j < programs.length →
    position i / 2 ≤ (position j + 1) / 2
  stopped : ∀ rank, rank < programs.length → ∀ rounds, Ended (after programs rounds) →
    position rank ≤ 4 * rounds
  written : ∀ rank value next, 1 ≤ position rank % 4 →
    (after programs (position rank / 4))[rank]? = some (.sum value next) →
      state.shared.slots[rank]? = some value
  mailbox : ∀ sender receiver data, state.shared.Waits sender receiver data ↔
    InFlight programs position sender receiver data

theorem placed_start (programs : List (Collective α β)) :
    Placed programs (start programs) fun _ => 0 where
  size := by simp [start]
  slotsSize := by simp [start, Shared.fresh]
  member rank program found := by
    have first : programs[rank]? = some program := found
    simp [start, first, threadAt]
  near _ _ _ _ := Nat.zero_le _
  stopped _ _ _ _ := Nat.zero_le _
  written _ _ _ reached _ := absurd reached (by simp)
  mailbox sender receiver data := by simp [InFlight, start, Shared.fresh, Shared.Waits]

section Position

variable {programs : List (Collective α β)} {state : State α β} {position : Nat → Nat}

theorem exists_program (programs : List (Collective α β)) (rounds : Nat) {rank : Nat}
    (inside : rank < programs.length) :
    ∃ program, (after programs rounds)[rank]? = some program :=
  ⟨_, List.getElem?_eq_getElem (by simpa using inside)⟩

theorem rank_lt {rounds rank : Nat} {program : Collective α β}
    (found : (after programs rounds)[rank]? = some program) : rank < programs.length := by
  simpa using (List.getElem?_eq_some_iff.mp found).1

/-- While one rank reads, all are between the write and the second barrier of the
same call. -/
theorem Placed.reading_together (placed : Placed programs state position) {rank other : Nat}
    (inside : rank < programs.length) (inside' : other < programs.length)
    (reads : position rank % 4 = 2) :
    position other / 4 = position rank / 4 ∧ 1 ≤ position other % 4 := by
  have ahead := placed.near rank other inside inside'
  have behind := placed.near other rank inside' inside
  omega

theorem Placed.not_finished (placed : Placed programs state position) {rank : Nat}
    {program : Collective α β} (found : (after programs (position rank / 4))[rank]? = some program)
    (calls : ∀ result, program ≠ .done result) {rounds : Nat}
    (finished : Ended (after programs rounds)) : position rank + 1 ≤ 4 * rounds := by
  have bound := placed.stopped rank (rank_lt found) rounds finished
  by_cases last : position rank = 4 * rounds
  · have same : position rank / 4 = rounds := by omega
    rw [same] at found
    obtain ⟨result, done⟩ := finished program (List.mem_of_getElem? found)
    exact absurd done (calls result)
  · omega

theorem receiver_lt {rounds sender receiver : Nat} {data : Array α}
    (joint : Joint (after programs rounds))
    (sends : (after programs rounds)[sender]?.bind (outgoing · receiver) = some data) :
    receiver < programs.length := by
  obtain ⟨program, found, sends⟩ := Option.bind_eq_some_iff.mp sends
  cases joint with
  | ended finished =>
      obtain ⟨result, rfl⟩ := finished program (List.mem_of_getElem? found)
      cases sends
  | sum summing =>
      obtain ⟨value, next, rfl⟩ := summing program (List.mem_of_getElem? found)
      cases sends
  | exchange met =>
      obtain ⟨neighbors, owned, ghost, next, rfl, meeting⟩ := met sender program found
      obtain ⟨neighbor, listed, same, _⟩ := listed_of_outgoing sends
      obtain ⟨_, _, _, _, other, _⟩ := meeting.answered neighbor listed
      exact same ▸ rank_lt other

def advanced (position : Nat → Nat) (rank : Nat) : Nat → Nat :=
  fun other => if other = rank then position rank + 1 else position other

@[simp] theorem advanced_same (position : Nat → Nat) (rank : Nat) :
    advanced position rank rank = position rank + 1 :=
  if_pos rfl

theorem advanced_other (position : Nat → Nat) {rank other : Nat} (different : other ≠ rank) :
    advanced position rank other = position other :=
  if_neg different

theorem in_flight_written (joined : Joined programs) (placed : Placed programs state position)
    {rank : Nat} (inside : rank < programs.length) (writes : position rank % 4 = 0)
    (sender receiver : Nat) (data : Array α) :
    InFlight programs (advanced position rank) sender receiver data ↔
      (sender = rank ∧
        (after programs (position rank / 4))[rank]?.bind (outgoing · receiver) = some data) ∨
      (sender ≠ rank ∧ InFlight programs position sender receiver data) := by
  unfold InFlight
  by_cases own : sender = rank
  · subst own
    have same : (position sender + 1) / 4 = position sender / 4 := by omega
    simp only [advanced_same, same, true_and, ne_eq, not_true_eq_false, false_and, or_false]
    refine ⟨fun flight => flight.2.2, fun sends => ⟨by omega, ?_, sends⟩⟩
    -- the receiver cannot be past its reading, with the sender still before the barrier
    have inside' := receiver_lt (joined _) sends
    have near := placed.near receiver sender inside' inside
    by_cases self : receiver = sender
    · subst self
      rw [advanced_same]
      omega
    · rw [advanced_other _ self]
      omega
  · rw [advanced_other _ own]
    simp only [own, false_and, ne_eq, not_false_eq_true, true_and, false_or]
    by_cases here : receiver = rank
    · subst here
      rw [advanced_same]
      refine and_congr_right fun _ => and_congr_left fun _ => ?_
      omega
    · rw [advanced_other _ here]

theorem in_flight_read (placed : Placed programs state position) {rank : Nat}
    (inside : rank < programs.length) (reads : position rank % 4 = 2)
    (sender receiver : Nat) (data : Array α) :
    InFlight programs (advanced position rank) sender receiver data ↔
      InFlight programs position sender receiver data ∧ receiver ≠ rank := by
  unfold InFlight
  by_cases own : sender = rank
  · subst own
    have same : (position sender + 1) / 4 = position sender / 4 := by omega
    rw [advanced_same, same]
    by_cases self : receiver = sender
    · subst self
      rw [advanced_same]
      refine ⟨fun flight => absurd flight.2.1 (by omega), fun flight => absurd rfl flight.2⟩
    · rw [advanced_other _ self]
      refine ⟨fun flight => ⟨⟨by omega, flight.2⟩, self⟩, fun flight => ⟨by omega, flight.1.2⟩⟩
  · rw [advanced_other _ own]
    by_cases here : receiver = rank
    · -- all others are in the reader's call, so what they sent to it is collected now
      subst here
      rw [advanced_same]
      refine ⟨fun flight => ?_, fun flight => absurd rfl flight.2⟩
      obtain ⟨program, found, _⟩ := Option.bind_eq_some_iff.mp flight.2.2
      have together := placed.reading_together inside (rank_lt found) reads
      have late := flight.2.1
      omega
    · rw [advanced_other _ here]
      simp [here]

/-- At a barrier nothing is posted and nothing collected, and a rank that leaves its
call has no message left in flight. -/
theorem in_flight_passed (joined : Joined programs) {rank : Nat} (waits : position rank % 2 = 1)
    (reached : ∀ other, other < programs.length → position rank ≤ position other)
    (sender receiver : Nat) (data : Array α) :
    InFlight programs (advanced position rank) sender receiver data ↔
      InFlight programs position sender receiver data := by
  unfold InFlight
  by_cases own : sender = rank
  · subst own
    rw [advanced_same]
    by_cases leaves : position sender % 4 = 3
    · -- whoever it sent to has collected by now
      refine ⟨fun flight => absurd flight.1 (by omega), fun flight => ?_⟩
      have late := reached receiver (receiver_lt (joined _) flight.2.2)
      have early := flight.2.1
      omega
    · have same : (position sender + 1) / 4 = position sender / 4 := by omega
      rw [same]
      by_cases self : receiver = sender
      · subst self
        rw [advanced_same]
        refine ⟨fun flight => ⟨by omega, by omega, flight.2.2⟩,
          fun flight => ⟨by omega, by omega, flight.2.2⟩⟩
      · rw [advanced_other _ self]
        refine ⟨fun flight => ⟨by omega, flight.2⟩, fun flight => ⟨by omega, flight.2⟩⟩
  · rw [advanced_other _ own]
    by_cases here : receiver = rank
    · subst here
      rw [advanced_same]
      refine and_congr_right fun _ => and_congr_left fun _ => ?_
      omega
    · rw [advanced_other _ here]

/-- What one step of a rank has to do for everyone to stay in place. -/
theorem Placed.advance (placed : Placed programs state position) {rank : Nat}
    {program : Collective α β} (found : (after programs (position rank / 4))[rank]? = some program)
    (calls : ∀ result, program ≠ .done result)
    (reached : position rank % 2 = 0 ∨
      ∀ other, other < programs.length → position rank ≤ position other)
    {thread : Thread α β} {shared : Shared α}
    (moves : ∀ program', (after programs ((position rank + 1) / 4))[rank]? = some program' →
      thread = threadAt (after programs ((position rank + 1) / 4)) rank program'
        ((position rank + 1) % 4))
    (slotsSize : shared.slots.length = state.shared.slots.length)
    (others : ∀ other, other ≠ rank → shared.slots[other]? = state.shared.slots[other]?)
    (own : ∀ value next, 1 ≤ (position rank + 1) % 4 →
      (after programs ((position rank + 1) / 4))[rank]? = some (.sum value next) →
        shared.slots[rank]? = some value)
    (mailbox : ∀ sender receiver data, shared.Waits sender receiver data ↔
      InFlight programs (advanced position rank) sender receiver data) :
    Placed programs ⟨shared, state.members.set rank ⟨thread, (position rank + 1) / 2⟩⟩
      (advanced position rank) where
  size := by simpa using placed.size
  slotsSize := slotsSize.trans placed.slotsSize
  member := by
    intro other program' found'
    by_cases here : other = rank
    · subst here
      rw [advanced_same] at found' ⊢
      have inside : other < state.members.length := placed.size ▸ rank_lt found
      rw [List.getElem?_set_self inside, moves program' found']
    · rw [advanced_other _ here] at found' ⊢
      rw [List.getElem?_set_ne (Ne.symm here)]
      exact placed.member other program' found'
  near := by
    intro i j insideI insideJ
    have bound := placed.near i j insideI insideJ
    unfold advanced
    by_cases first : i = rank
    · subst first
      by_cases second : j = i
      · subst second
        simp only [if_true]
        omega
      · rw [if_pos rfl, if_neg second]
        rcases reached with even | all
        · omega
        · -- a rank that passes a barrier is ahead of nobody
          have ahead := all j insideJ
          have back := placed.near j i insideJ insideI
          omega
    · rw [if_neg first]
      by_cases second : j = rank
      · rw [if_pos second]
        subst second
        omega
      · rwa [if_neg second]
  stopped := by
    intro other inside rounds finished
    by_cases here : other = rank
    · subst here
      rw [advanced_same]
      exact placed.not_finished found calls finished
    · rw [advanced_other _ here]
      exact placed.stopped other inside rounds finished
  written := by
    intro other value next
    by_cases here : other = rank
    · subst here
      rw [advanced_same]
      exact own value next
    · rw [advanced_other _ here, others other here]
      exact placed.written other value next
  mailbox := mailbox

end Position
end Relaxation.Group

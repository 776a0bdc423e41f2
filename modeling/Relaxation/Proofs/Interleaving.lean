import Relaxation.Proofs.Barrier
import Relaxation.Proofs.Exact
import Mathlib.Algebra.Order.BigOperators.Group.Finset
import Mathlib.Data.Finset.Max

/-!
Every step of a group keeps its ranks in place, whatever order the steps are taken in.
So every call gets the answer of its own round, somebody can always move until all
have ended, and no run goes on for ever.
-/

namespace Relaxation.Group

variable {α β : Type} [Arithmetic α]

section Position

variable {programs : List (Collective α β)} {state : State α β} {position : Nat → Nat}

def written (rank : Nat) (shared : Shared α) : Collective α β → Shared α
  | .done _ => shared
  | .sum value _ => shared.put rank value
  | .exchange neighbors owned _ _ =>
    shared.post rank (neighbors.map fun neighbor => (neighbor.rank, neighbor.packed owned))

theorem access_writing {round : List (Collective α β)} (joint : Joint round) {rank : Nat}
    {program : Collective α β} (found : round[rank]? = some program)
    (calls : ∀ result, program ≠ .done result) (shared : Shared α) :
    program.thread.access rank shared = some (.wait (reading program), written rank shared program) := by
  cases joint with
  | ended finished =>
      obtain ⟨result, same⟩ := finished program (List.mem_of_getElem? found)
      exact absurd same (calls result)
  | sum summing =>
      obtain ⟨value, next, rfl⟩ := summing program (List.mem_of_getElem? found)
      rfl
  | exchange met =>
      obtain ⟨neighbors, owned, ghost, next, rfl, meeting⟩ := met rank program found
      rw [Collective.thread, parcels_packed meeting.sent]
      rfl

omit [Arithmetic α] in
theorem length_slots_written (rank : Nat) (shared : Shared α) (program : Collective α β) :
    (written rank shared program).slots.length = shared.slots.length := by
  cases program with
  | done result => rfl
  | sum value next => simp [written, Shared.put]
  | exchange neighbors owned ghost next => exact congrArg List.length (Shared.slots_post ..)

omit [Arithmetic α] in
theorem slots_written_other {rank other : Nat} (different : other ≠ rank) (shared : Shared α)
    (program : Collective α β) :
    (written rank shared program).slots[other]? = shared.slots[other]? := by
  cases program with
  | done result => rfl
  | sum value next => simp [written, Shared.put, different.symm]
  | exchange neighbors owned ghost next =>
      exact congrArg (fun slots : List α => slots[other]?) (Shared.slots_post ..)

omit [Arithmetic α] in
theorem waits_written {round : List (Collective α β)} (joint : Joint round) {rank : Nat}
    {program : Collective α β} (found : round[rank]? = some program)
    (calls : ∀ result, program ≠ .done result) {shared : Shared α}
    (silent : ∀ receiver data, ¬ shared.Waits rank receiver data) (sender receiver : Nat)
    (data : Array α) :
    (written rank shared program).Waits sender receiver data ↔
      (sender = rank ∧ outgoing program receiver = some data) ∨
        (sender ≠ rank ∧ shared.Waits sender receiver data) := by
  have other : shared.Waits sender receiver data → sender ≠ rank := fun waits own =>
    silent receiver data (own ▸ waits)
  cases program with
  | done result => exact absurd rfl (calls result)
  | sum value next =>
      have kept : (written rank shared (.sum value next)).Waits sender receiver data ↔
          shared.Waits sender receiver data := Iff.rfl
      rw [kept]
      constructor
      · exact fun waits => .inr ⟨other waits, waits⟩
      · rintro (⟨_, sends⟩ | ⟨_, waits⟩)
        · cases sends
        · exact waits
  | exchange neighbors owned ghost next =>
      have meeting := (joint.met found).meeting found
      have distinct : ((neighbors.map fun neighbor =>
          (neighbor.rank, neighbor.packed owned)).map Prod.fst).Nodup := by
        simpa [Function.comp_def] using meeting.distinct
      unfold written
      rw [Shared.waits_post distinct]
      constructor
      · rintro (⟨own, packed⟩ | ⟨_, waits⟩)
        · obtain ⟨neighbor, listed, same⟩ := List.mem_map.mp packed
          cases same
          exact .inl ⟨own, outgoing_of_listed meeting.distinct listed⟩
        · exact .inr ⟨other waits, waits⟩
      · rintro (⟨own, sends⟩ | ⟨apart, waits⟩)
        · obtain ⟨neighbor, listed, same, packed⟩ := listed_of_outgoing sends
          subst same packed
          exact .inl ⟨own, List.mem_map_of_mem listed⟩
        · exact .inr ⟨fun own => apart own.1, waits⟩

theorem placed_write (joined : Joined programs) (placed : Placed programs state position)
    {rank : Nat} {program : Collective α β}
    (found : (after programs (position rank / 4))[rank]? = some program)
    (calls : ∀ result, program ≠ .done result) (writes : position rank % 4 = 0) :
    Placed programs
      ⟨written rank state.shared program,
        state.members.set rank ⟨.wait (reading program), (position rank + 1) / 2⟩⟩
      (advanced position rank) := by
  have round : (position rank + 1) / 4 = position rank / 4 := by omega
  have step : (position rank + 1) % 4 = 1 := by omega
  have inside := rank_lt found
  have silent : ∀ receiver data, ¬ state.shared.Waits rank receiver data := by
    intro receiver data waiting
    have flight := (placed.mailbox rank receiver data).mp waiting
    exact absurd flight.1 (by omega)
  apply placed.advance found calls (.inl (by omega))
  · intro program' found'
    rw [round, found] at found'
    cases found'
    rw [step]
    rfl
  · exact length_slots_written ..
  · exact fun other different => slots_written_other different ..
  · intro value next _ summing
    rw [round, found] at summing
    cases summing
    have slot : rank < state.shared.slots.length := placed.slotsSize ▸ inside
    simp [written, Shared.put, slot]
  · intro sender receiver data
    rw [waits_written (joined _) found calls silent, placed.mailbox,
      in_flight_written joined placed inside writes, found, Option.bind_some]

theorem Placed.slots_eq (joined : Joined programs) (placed : Placed programs state position)
    {rank : Nat} {value : α} {next : α → Collective α β}
    (found : (after programs (position rank / 4))[rank]? = some (.sum value next))
    (reads : position rank % 4 = 2) :
    state.shared.slots = (after programs (position rank / 4)).map addend := by
  have summing := (joined _).summing found
  apply List.ext_getElem?
  intro other
  by_cases inside : other < programs.length
  · obtain ⟨program, theirs⟩ := exists_program programs (position rank / 4) inside
    obtain ⟨value', next', rfl⟩ := summing program (List.mem_of_getElem? theirs)
    obtain ⟨round, wrote⟩ := placed.reading_together (rank_lt found) inside reads
    rw [List.getElem?_map, theirs,
      placed.written other value' next' wrote (by rw [round]; exact theirs)]
    rfl
  · have beyond : programs.length ≤ other := Nat.not_lt.mp inside
    rw [List.getElem?_eq_none (placed.slotsSize ▸ beyond),
      List.getElem?_eq_none (by simpa using beyond)]

/-- While a rank reads, what waits for it was sent in this very round. -/
theorem Placed.sent_now (placed : Placed programs state position) {rank : Nat}
    (inside : rank < programs.length) (reads : position rank % 4 = 2) {sender : Nat}
    {data : Array α} (waiting : state.shared.Waits sender rank data) :
    (after programs (position rank / 4))[sender]?.bind (outgoing · rank) = some data := by
  have flight := (placed.mailbox sender rank data).mp waiting
  obtain ⟨theirs, listed, _⟩ := Option.bind_eq_some_iff.mp flight.2.2
  rw [← (placed.reading_together inside (rank_lt listed) reads).1]
  exact flight.2.2

/-- A rank finds every message of its exchange, and leaves none behind that was sent
to it. -/
theorem collect_reading (joined : Joined programs) (placed : Placed programs state position)
    {rank : Nat} {neighbors : List Neighbor} {owned ghost : Array α}
    {next : Exchanged α → Collective α β}
    (found : (after programs (position rank / 4))[rank]? =
      some (.exchange neighbors owned ghost next))
    (reads : position rank % 4 = 2) :
    ∃ shared, state.shared.collect rank neighbors ghost =
        ((.ok (), Shared.filled (incoming (after programs (position rank / 4)) rank)
          neighbors ghost), shared) ∧
      shared.slots = state.shared.slots ∧
      ∀ sender receiver data, shared.Waits sender receiver data ↔
        state.shared.Waits sender receiver data ∧ receiver ≠ rank := by
  have inside := rank_lt found
  have met := (joined _).met found
  have meeting := met.meeting found
  have waits : ∀ neighbor ∈ neighbors, state.shared.Waits neighbor.rank rank
      (incoming (after programs (position rank / 4)) rank neighbor.rank) := by
    intro neighbor listed
    obtain ⟨theirs, data, held, next', their, other, _, _, _, _, sends, arrives⟩ :=
      met.incoming_eq found listed
    obtain ⟨round, wrote⟩ := placed.reading_together inside (rank_lt other) reads
    rw [arrives]
    apply (placed.mailbox _ _ _).mpr
    refine ⟨wrote, by omega, ?_⟩
    rw [round, other]
    exact sends
  have only : ∀ neighbor ∈ neighbors, ∀ data, state.shared.Waits neighbor.rank rank data →
      data = incoming (after programs (position rank / 4)) rank neighbor.rank := by
    intro neighbor listed data waiting
    simp [incoming, placed.sent_now inside reads waiting]
  obtain ⟨shared, ran, slots, left⟩ := Shared.collect_filled meeting.distinct waits only
    (met.size_incoming found) meeting.inside
  refine ⟨shared, ran, slots, fun sender receiver data => ?_⟩
  rw [left]
  refine and_congr_right fun waiting => not_congr ?_
  refine ⟨fun own => own.1, fun own => ⟨own, ?_⟩⟩
  subst own
  -- a sender lists the rank, so the rank lists it
  obtain ⟨theirs, listed, sends⟩ :=
    Option.bind_eq_some_iff.mp (placed.sent_now inside reads waiting)
  obtain ⟨neighbors', owned', ghost', next', rfl, meeting'⟩ := met sender theirs listed
  obtain ⟨neighbor, member, same, _⟩ := listed_of_outgoing sends
  obtain ⟨_, _, _, _, back, mine, listedBack, named, _⟩ := meeting'.answered neighbor member
  rw [same, found] at back
  cases back
  exact List.mem_map.mpr ⟨mine, listedBack, named⟩

theorem access_reading (joined : Joined programs) (placed : Placed programs state position)
    {rank : Nat} {program : Collective α β}
    (found : (after programs (position rank / 4))[rank]? = some program)
    (calls : ∀ result, program ≠ .done result) (reads : position rank % 4 = 2) :
    ∃ shared, (reading program).access rank state.shared =
        some (.wait (proceed (after programs (position rank / 4)) rank program).thread, shared) ∧
      shared.slots = state.shared.slots ∧
      ∀ sender receiver data, shared.Waits sender receiver data ↔
        state.shared.Waits sender receiver data ∧ receiver ≠ rank := by
  cases program with
  | done result => exact absurd rfl (calls result)
  | sum value next =>
      refine ⟨state.shared, ?_, rfl, fun sender receiver data => ?_⟩
      · rw [proceed, ← placed.slots_eq joined found reads]
        rfl
      · -- nobody sends in a round of sums
        refine ⟨fun waiting => ⟨waiting, fun own => ?_⟩, fun waiting => waiting.1⟩
        subst own
        obtain ⟨theirs, listed, sends⟩ :=
          Option.bind_eq_some_iff.mp (placed.sent_now (rank_lt found) reads waiting)
        obtain ⟨value', next', rfl⟩ :=
          (joined _).summing found theirs (List.mem_of_getElem? listed)
        cases sends
  | exchange neighbors owned ghost next =>
      obtain ⟨shared, ran, slots, left⟩ := collect_reading joined placed found reads
      refine ⟨shared, ?_, slots, left⟩
      simp only [reading, Thread.access, ran]
      rfl

theorem placed_read (placed : Placed programs state position)
    {rank : Nat} {program : Collective α β}
    (found : (after programs (position rank / 4))[rank]? = some program)
    (calls : ∀ result, program ≠ .done result) (reads : position rank % 4 = 2)
    {shared : Shared α} (slots : shared.slots = state.shared.slots)
    (left : ∀ sender receiver data, shared.Waits sender receiver data ↔
      state.shared.Waits sender receiver data ∧ receiver ≠ rank) :
    Placed programs
      ⟨shared, state.members.set rank
        ⟨.wait (proceed (after programs (position rank / 4)) rank program).thread,
          (position rank + 1) / 2⟩⟩
      (advanced position rank) := by
  have round : (position rank + 1) / 4 = position rank / 4 := by omega
  have step : (position rank + 1) % 4 = 3 := by omega
  apply placed.advance found calls (.inl (by omega))
  · intro program' found'
    rw [round, found] at found'
    cases found'
    rw [round, step]
    rfl
  · rw [slots]
  · intro other _
    rw [slots]
  · intro value next _ summing
    rw [slots]
    rw [round] at summing
    exact placed.written rank value next (by omega) summing
  · intro sender receiver data
    rw [left, placed.mailbox, in_flight_read placed (rank_lt found) reads]

theorem placed_pass (joined : Joined programs) (placed : Placed programs state position)
    {rank : Nat} {program : Collective α β}
    (found : (after programs (position rank / 4))[rank]? = some program)
    (calls : ∀ result, program ≠ .done result) (waits : position rank % 2 = 1)
    (reached : ∀ other, other < programs.length → position rank ≤ position other)
    {thread : Thread α β}
    (moved : (threadAt (after programs (position rank / 4)) rank program
      (position rank % 4)).pass? = some thread) :
    Placed programs
      ⟨state.shared, state.members.set rank ⟨thread, (position rank + 1) / 2⟩⟩
      (advanced position rank) := by
  apply placed.advance found calls (.inr reached) ?_ rfl (fun _ _ => rfl)
  · intro value next writes summing
    have round : (position rank + 1) / 4 = position rank / 4 := by omega
    rw [round] at summing
    exact placed.written rank value next (by omega) summing
  · intro sender receiver data
    rw [placed.mailbox, in_flight_passed joined waits reached]
  · intro program' found'
    -- the first barrier leads into the reading, the second one out of the call
    by_cases first : position rank % 4 = 1
    · have round : (position rank + 1) / 4 = position rank / 4 := by omega
      have step : (position rank + 1) % 4 = 2 := by omega
      rw [round, found] at found'
      cases found'
      rw [first] at moved
      rw [step]
      exact (Option.some.inj moved).symm
    · have second : position rank % 4 = 3 := by omega
      have round : (position rank + 1) / 4 = position rank / 4 + 1 := by omega
      have step : (position rank + 1) % 4 = 0 := by omega
      rw [round, getElem?_after_succ, found] at found'
      cases found'
      rw [second] at moved
      rw [step]
      exact (Option.some.inj moved).symm

omit [Arithmetic α] in
theorem waiting_thread (program : Collective α β) : program.thread.waiting = false := by
  cases program with
  | done result => rfl
  | sum value next => rfl
  | exchange neighbors owned ghost next =>
      unfold Collective.thread
      rcases parcels owned neighbors with ⟨packed, _ | _⟩ <;> rfl

theorem Placed.member_eq (placed : Placed programs state position) {rank : Nat}
    {member : Member α β} (found : state.members[rank]? = some member) :
    ∃ program, (after programs (position rank / 4))[rank]? = some program ∧
      member = ⟨threadAt (after programs (position rank / 4)) rank program (position rank % 4),
        position rank / 2⟩ := by
  have inside : rank < programs.length :=
    placed.size ▸ (List.getElem?_eq_some_iff.mp found).1
  obtain ⟨program, listed⟩ := exists_program programs (position rank / 4) inside
  exact ⟨program, listed, Option.some.inj (found.symm.trans (placed.member rank program listed))⟩

theorem Placed.arrived_eq (placed : Placed programs state position) {rank : Nat}
    {member : Member α β} (found : state.members[rank]? = some member) :
    rank < programs.length ∧ member.passed = position rank / 2 ∧
      member.arrived = (position rank + 1) / 2 := by
  obtain ⟨program, listed, rfl⟩ := placed.member_eq found
  have inside := rank_lt listed
  refine ⟨inside, rfl, ?_⟩
  unfold Member.arrived
  dsimp only
  generalize phase : position rank % 4 = steps
  have bound : steps < 4 := by omega
  match steps, bound with
  | 0, _ =>
      simp only [threadAt, waiting_thread, Bool.false_eq_true, if_false]
      omega
  | 1, _ =>
      simp only [threadAt, Thread.waiting, if_true]
      omega
  | 2, _ =>
      have reads : (reading program).waiting = false := by cases program <;> rfl
      simp only [threadAt, reads, Bool.false_eq_true, if_false]
      omega
  | 3, _ =>
      simp only [threadAt, Thread.waiting, if_true]
      omega

theorem Placed.calls_or_finished (joined : Joined programs) (placed : Placed programs state position)
    {rank : Nat} {program : Collective α β}
    (found : (after programs (position rank / 4))[rank]? = some program) :
    (∀ result, program ≠ .done result) ∨
      (Ended (after programs (position rank / 4)) ∧ position rank % 4 = 0 ∧
        ∃ result, program = .done result) := by
  cases program with
  | sum value next => exact .inl fun _ same => nomatch same
  | exchange neighbors owned ghost next => exact .inl fun _ same => nomatch same
  | done result =>
      have finished := (joined _).finished found
      have last := placed.stopped rank (rank_lt found) _ finished
      exact .inr ⟨finished, by omega, result, rfl⟩

theorem placed_step (joined : Joined programs) (placed : Placed programs state position)
    {next : State α β} (step : Step state next) :
    ∃ rank, rank < programs.length ∧ Placed programs next (advanced position rank) := by
  cases step with
  | @access rank member thread shared found moved =>
      obtain ⟨program, listed, rfl⟩ := placed.member_eq found
      refine ⟨rank, rank_lt listed, ?_⟩
      dsimp only at moved ⊢
      rcases placed.calls_or_finished joined listed with calls | ⟨_, start, result, rfl⟩
      · -- only the first and the third step of a call touch what is shared
        generalize phase : position rank % 4 = steps at moved
        rcases steps with _ | _ | _ | steps
        · rw [threadAt, access_writing (joined _) listed calls] at moved
          cases moved
          have passed : position rank / 2 = (position rank + 1) / 2 := by omega
          rw [passed]
          exact placed_write joined placed listed calls phase
        · cases moved
        · obtain ⟨after', ran, slots, left⟩ := access_reading joined placed listed calls phase
          rw [threadAt, ran] at moved
          cases moved
          have passed : position rank / 2 = (position rank + 1) / 2 := by omega
          rw [passed]
          exact placed_read placed listed calls phase slots left
        · cases moved
      · rw [start] at moved
        cases moved
  | @pass rank member thread found moved reached =>
      obtain ⟨program, listed, rfl⟩ := placed.member_eq found
      refine ⟨rank, rank_lt listed, ?_⟩
      dsimp only at moved reached ⊢
      rcases placed.calls_or_finished joined listed with calls | ⟨_, start, result, rfl⟩
      · have waits : position rank % 2 = 1 := by
          generalize phase : position rank % 4 = steps at moved
          have bound : steps < 4 := by omega
          rcases steps with _ | _ | _ | steps
          · have still := waiting_thread program
            rw [threadAt] at moved
            cases shape : program.thread <;> simp [shape, Thread.pass?, Thread.waiting] at moved still
          · omega
          · cases program <;> cases moved
          · omega
        have together : ∀ other, other < programs.length → position rank ≤ position other := by
          intro other inside'
          have held : other < state.members.length := placed.size ▸ inside'
          have theirs := List.getElem?_eq_getElem held
          have before := reached _ (List.getElem_mem held)
          rw [(placed.arrived_eq theirs).2.2] at before
          omega
        have passed : position rank / 2 + 1 = (position rank + 1) / 2 := by omega
        rw [passed]
        exact placed_pass joined placed listed calls waits together moved
      · rw [start] at moved
        cases moved

theorem placed_steps (joined : Joined programs) {first last : State α β}
    (steps : Steps first last) (placed : Placed programs first position) :
    ∃ position, Placed programs last position := by
  induction steps with
  | refl => exact ⟨position, placed⟩
  | tail before step ih =>
      obtain ⟨position, placed⟩ := ih
      obtain ⟨rank, _, next⟩ := placed_step joined placed step
      exact ⟨_, next⟩

/-- The rank that is furthest behind can always move, unless all have ended. -/
theorem placed_progress (joined : Joined programs) (placed : Placed programs state position) :
    (∃ rounds, Ended (after programs rounds) ∧
      ∀ rank, rank < programs.length → position rank = 4 * rounds) ∨
    ∃ next, Step state next := by
  cases size : programs.length with
  | zero =>
      obtain ⟨rounds, finished⟩ := joined_ends joined
      exact .inl ⟨rounds, finished, fun rank inside => absurd inside (Nat.not_lt_zero rank)⟩
  | succ others =>
      obtain ⟨rank, listed, least⟩ := (Finset.range programs.length).exists_min_image position
        ⟨0, Finset.mem_range.mpr (size ▸ Nat.succ_pos others)⟩
      have inside := Finset.mem_range.mp listed
      obtain ⟨program, found⟩ := exists_program programs (position rank / 4) inside
      have here := placed.member rank program found
      rcases placed.calls_or_finished joined found with calls | ⟨finished, start, _⟩
      · right
        -- nobody is behind the rank, so its barrier is open to it
        have pass : position rank % 2 = 1 → ∀ thread,
            (threadAt (after programs (position rank / 4)) rank program
              (position rank % 4)).pass? = some thread → ∃ next, Step state next := by
          intro waits thread moved
          refine ⟨_, .pass here moved fun other member => ?_⟩
          obtain ⟨index, theirs⟩ := List.mem_iff_getElem?.mp member
          obtain ⟨inside', _, arrived⟩ := placed.arrived_eq theirs
          have behind := least index (Finset.mem_range.mpr inside')
          rw [arrived]
          dsimp only
          omega
        generalize phase : position rank % 4 = steps at here pass
        have bound : steps < 4 := by omega
        match steps, bound with
        | 0, _ => exact ⟨_, .access here (access_writing (joined _) found calls _)⟩
        | 1, _ => exact pass (by omega) _ rfl
        | 2, _ =>
            obtain ⟨shared, ran, _⟩ := access_reading joined placed found calls phase
            exact ⟨_, .access here ran⟩
        | 3, _ => exact pass (by omega) _ rfl
      · left
        refine ⟨position rank / 4, finished, fun other inside' => ?_⟩
        have behind := least other (Finset.mem_range.mpr (size ▸ inside'))
        have last := placed.stopped other (size ▸ inside') _ finished
        omega

theorem Placed.ended (placed : Placed programs state position) {rounds : Nat}
    (last : ∀ rank, rank < programs.length → position rank = 4 * rounds) {rank : Nat} {result : β}
    (found : (after programs rounds)[rank]? = some (.done result)) :
    state.members[rank]? = some ⟨.done result, 2 * rounds⟩ := by
  have here := last rank (rank_lt found)
  have round : position rank / 4 = rounds := by omega
  have phase : position rank % 4 = 0 := by omega
  have passed : position rank / 2 = 2 * rounds := by omega
  have member := placed.member rank (.done result) (round ▸ found)
  rwa [phase, passed] at member

/-- No run goes on for ever. Every step takes one rank closer to the end, which is the
same for all. -/
theorem placed_terminates (joined : Joined programs) (placed : Placed programs state position) :
    Acc (fun later earlier => Step earlier later) state := by
  obtain ⟨rounds, finished⟩ := joined_ends joined
  generalize distance :
    ∑ rank ∈ Finset.range programs.length, (4 * rounds - position rank) = left
  induction left using Nat.strong_induction_on generalizing state position with
  | _ left ih =>
      refine Acc.intro state fun next step => ?_
      obtain ⟨rank, inside, moved⟩ := placed_step joined placed step
      refine ih _ ?_ moved rfl
      -- no position passes the last round, so the distance to it gets smaller
      have bound := moved.stopped rank inside rounds finished
      rw [advanced_same] at bound
      rw [← distance]
      apply Finset.sum_lt_sum
      · intro other _
        unfold advanced
        by_cases here : other = rank
        · rw [if_pos here]
          subst here
          omega
        · rw [if_neg here]
      · refine ⟨rank, Finset.mem_range.mpr inside, ?_⟩
        rw [advanced_same]
        omega

end Position

section Runs

variable {programs : List (Collective α β)} {state : State α β}

theorem placed_of_reached (joined : Joined programs) (reached : Steps (start programs) state) :
    ∃ position, Placed programs state position :=
  placed_steps joined reached (placed_start programs)

theorem done_in_round (joined : Joined programs) (reached : Steps (start programs) state)
    {rank passed : Nat} {result : β}
    (found : state.members[rank]? = some ⟨.done result, passed⟩) :
    ∃ rounds, Ended (after programs rounds) ∧
      (after programs rounds)[rank]? = some (.done result) := by
  obtain ⟨position, placed⟩ := placed_of_reached joined reached
  obtain ⟨program, listed, same⟩ := placed.member_eq found
  rcases placed.calls_or_finished joined listed with calls | ⟨finished, first, result', rfl⟩
  · generalize position rank % 4 = steps at same
    -- no thread of a call is at its end
    have going : threadAt (after programs (position rank / 4)) rank program steps ≠
        .done result := by
      intro same
      rcases steps with _ | _ | _ | steps
      · cases program with
        | done result => exact calls result rfl
        | sum value next => cases same
        | exchange neighbors owned ghost next =>
            have meeting := ((joined _).met listed).meeting listed
            rw [threadAt, Collective.thread, parcels_packed meeting.sent] at same
            cases same
      · cases same
      · cases program with
        | done result => exact calls result rfl
        | sum value next => cases same
        | exchange neighbors owned ghost next => cases same
      · cases same
    exact absurd (congrArg Member.thread same).symm going
  · rw [first] at same
    cases same
    exact ⟨_, finished, listed⟩

theorem Ended.unique {first second : Nat} (finished : Ended (after programs first))
    (finished' : Ended (after programs second)) : after programs first = after programs second := by
  rcases Nat.le_total first second with early | late
  · rw [← Nat.add_sub_cancel' early, ← after_after, finished.after_eq]
  · rw [← Nat.add_sub_cancel' late, ← after_after, finished'.after_eq]

theorem collects (joined : Joined programs) (reached : Steps (start programs) state) {rank : Nat}
    {neighbors : List Neighbor} {ghost : Array α} {next : Exchanged α → Thread α β} {passed : Nat}
    (found : state.members[rank]? = some ⟨.collect neighbors ghost next, passed⟩) :
    ∃ filled, (state.shared.collect rank neighbors ghost).1 = (.ok (), filled) := by
  obtain ⟨position, placed⟩ := placed_of_reached joined reached
  obtain ⟨program, listed, same⟩ := placed.member_eq found
  generalize phase : position rank % 4 = steps at same
  have bound : steps < 4 := by omega
  match steps, bound with
  | 0, _ =>
      cases program with
      | done result => cases same
      | sum value next => cases same
      | exchange neighbors' owned ghost' next' =>
          have meeting := ((joined _).met listed).meeting listed
          rw [threadAt, Collective.thread, parcels_packed meeting.sent] at same
          cases same
  | 1, _ => cases same
  | 2, _ =>
      cases program with
      | done result => cases same
      | sum value next => cases same
      | exchange neighbors' owned ghost' next' =>
          obtain ⟨shared, ran, _⟩ := collect_reading joined placed listed phase
          cases same
          exact ⟨_, congrArg Prod.fst ran⟩
  | 3, _ => cases same

theorem thread_at_ne (round : List (Collective α β)) (rank : Nat) {program : Collective α β}
    (calls : ∀ result, program ≠ .done result) {steps : Nat} (begun : 1 ≤ steps) :
    threadAt round rank program steps ≠ program.thread := by
  have still := waiting_thread program
  intro same
  match steps, begun with
  | 1, _ =>
      rw [← same] at still
      cases still
  | 2, _ =>
      cases program with
      | done result => exact calls result rfl
      | sum value next => cases same
      | exchange neighbors owned ghost next =>
          revert same
          rw [Collective.thread]
          rcases parcels owned neighbors with ⟨packed, _ | _⟩ <;> exact nofun
  | steps + 3, _ =>
      rw [← same] at still
      cases still

/-- What waits in the mailbox was sent in the round its sender is in, by a step it has
taken there, and nobody has completed that round. -/
theorem waits_current (joined : Joined programs) (reached : Steps (start programs) state)
    {sender receiver : Nat} {data : Array α} (waiting : state.shared.Waits sender receiver data) :
    ∃ member call, state.members[sender]? = some member ∧
      (after programs (member.passed / 2))[sender]? = some call ∧
      outgoing call receiver = some data ∧ member.thread ≠ call.thread ∧
      ∀ other ∈ state.members, other.passed / 2 ≤ member.passed / 2 := by
  obtain ⟨position, placed⟩ := placed_of_reached joined reached
  obtain ⟨begun, pending, sends⟩ := (placed.mailbox sender receiver data).mp waiting
  have inside := receiver_lt (joined _) sends
  obtain ⟨call, found, sends⟩ := Option.bind_eq_some_iff.mp sends
  have calls : ∀ result, call ≠ .done result := by
    rintro result rfl
    cases sends
  refine ⟨_, call, placed.member sender call found, ?_, sends,
    thread_at_ne _ sender calls begun, fun other member => ?_⟩
  · have round : position sender / 2 / 2 = position sender / 4 := by omega
    dsimp only
    rw [round]
    exact found
  · obtain ⟨index, theirs⟩ := List.mem_iff_getElem?.mp member
    obtain ⟨inside', passed, _⟩ := placed.arrived_eq theirs
    have near := placed.near index receiver inside' inside
    dsimp only
    omega

theorem leaves_answered (agreed : Agreed programs) (reached : Steps (start programs) state)
    {next : State α β} (step : Step state next) {rank round : Nat} {before member : Member α β}
    (found : state.members[rank]? = some before) (found' : next.members[rank]? = some member)
    (enters : before.passed = 2 * round + 1) (leaves : member.passed = 2 * round + 2) :
    ∃ call answered, (after programs round)[rank]? = some call ∧
      Returned (after programs round) rank call answered ∧
      (after programs (round + 1))[rank]? = some answered ∧ member.thread = answered.thread := by
  obtain ⟨position, placed⟩ := placed_of_reached agreed.joined reached
  obtain ⟨mover, _, placed'⟩ := placed_step agreed.joined placed step
  obtain ⟨inside, passed, _⟩ := placed.arrived_eq found
  obtain ⟨_, passed', _⟩ := placed'.arrived_eq found'
  -- one step cannot take a rank past two barriers
  have moved : position rank = 4 * round + 3 ∧ advanced position mover rank = 4 * round + 4 := by
    unfold advanced at passed' ⊢
    by_cases own : rank = mover
    · rw [if_pos own] at passed' ⊢
      subst own
      omega
    · rw [if_neg own] at passed'
      omega
  obtain ⟨last, first⟩ := moved
  have this : position rank / 4 = round := by omega
  have following : advanced position mover rank / 4 = round + 1 := by omega
  have phase : advanced position mover rank % 4 = 0 := by omega
  obtain ⟨call, listed⟩ := exists_program programs round inside
  have behind := getElem?_after_succ programs round rank
  rw [listed, Option.map_some] at behind
  have calls : ∀ result, call ≠ .done result := by
    rcases placed.calls_or_finished agreed.joined (this ▸ listed) with calls | ⟨_, start, _⟩
    · exact calls
    · omega
  have same := placed'.member rank _ (following ▸ behind)
  rw [phase, found'] at same
  exact ⟨call, _, listed, returned_proceed (agreed round) listed calls, behind,
    congrArg Member.thread (Option.some.inj same)⟩

theorem ended_or_moves (joined : Joined programs) (reached : Steps (start programs) state) :
    (∀ member ∈ state.members, ∃ result, member.thread = .done result) ∨
      ∃ next, Step state next := by
  obtain ⟨position, placed⟩ := placed_of_reached joined reached
  rcases placed_progress joined placed with ⟨rounds, finished, last⟩ | moves
  · left
    intro member listed
    obtain ⟨rank, found⟩ := List.mem_iff_getElem?.mp listed
    obtain ⟨inside, _⟩ := placed.arrived_eq found
    obtain ⟨program, theirs⟩ := exists_program programs rounds inside
    obtain ⟨result, rfl⟩ := finished program (List.mem_of_getElem? theirs)
    have same := Option.some.inj ((placed.ended last theirs).symm.trans found)
    exact ⟨result, same ▸ rfl⟩
  · exact .inr moves

/-- In every order of the ranks' steps: each call that a rank completes has returned
the sum over all ranks, or the values its neighbors gathered in this very round; no
rank misses a message; no message outlives its round; and unless every rank has
ended, some rank can move, but not for ever. -/
theorem calls_return_in_every_order {programs : List (Collective α β)} (agreed : Agreed programs)
    {state : State α β} (reached : Steps (start programs) state) :
    (∀ next, Step state next → ∀ rank before member round,
      state.members[rank]? = some before → next.members[rank]? = some member →
      before.passed = 2 * round + 1 → member.passed = 2 * round + 2 →
        ∃ call answered, (after programs round)[rank]? = some call ∧
          Returned (after programs round) rank call answered ∧
          (after programs (round + 1))[rank]? = some answered ∧
          member.thread = answered.thread) ∧
    (∀ rank neighbors ghost next passed,
      state.members[rank]? = some ⟨.collect neighbors ghost next, passed⟩ →
        ∃ filled, (state.shared.collect rank neighbors ghost).1 = (.ok (), filled)) ∧
    (∀ sender receiver data, state.shared.Waits sender receiver data →
      ∃ member call, state.members[sender]? = some member ∧
        (after programs (member.passed / 2))[sender]? = some call ∧
        outgoing call receiver = some data ∧ member.thread ≠ call.thread ∧
        ∀ other ∈ state.members, other.passed / 2 ≤ member.passed / 2) ∧
    ((∀ member ∈ state.members, ∃ result, member.thread = .done result) ∨
      ∃ next, Step state next) ∧
    Acc (fun later earlier => Step earlier later) state := by
  obtain ⟨position, placed⟩ := placed_of_reached agreed.joined reached
  refine ⟨?_, ?_, ?_, ended_or_moves agreed.joined reached, placed_terminates agreed.joined placed⟩
  · intro next step rank before member round found found' enters leaves
    exact leaves_answered agreed reached step found found' enters leaves
  · intro rank neighbors ghost next passed found
    exact collects agreed.joined reached found
  · intro sender receiver data waiting
    exact waits_current agreed.joined reached waiting

/-- A rank that has one value, sums it with the others' and swaps it with a neighbor's. -/
def swapping (value : ℚ) (other : Nat) : Collective ℚ (ℚ × Array ℚ) :=
  .sum value fun total => .exchange [⟨other, [0], 0, 1⟩] #[value] #[0] fun answer =>
    .done (total, answer.2)

def twoRanks : List (Collective ℚ (ℚ × Array ℚ)) :=
  [swapping 1 1, swapping 2 0]

def swappingNow (value : ℚ) (other : Nat) : Collective ℚ (ℚ × Array ℚ) :=
  .exchange [⟨other, [0], 0, 1⟩] #[value] #[0] fun answer =>
    .done (Arithmetic.total [1, 2], answer.2)

/-- Both ranks have read the sum, and none has passed the second barrier. -/
def twoRanksSummed : State ℚ (ℚ × Array ℚ) :=
  ⟨⟨[1, 2], []⟩, [⟨.wait (swappingNow 1 1).thread, 1⟩, ⟨.wait (swappingNow 2 0).thread, 1⟩]⟩

theorem two_ranks_agreed : Agreed twoRanks := by
  have first : Together twoRanks := by
    apply Together.sum
    intro program member
    rcases List.mem_pair.mp member with rfl | rfl
    · exact ⟨_, _, rfl⟩
    · exact ⟨_, _, rfl⟩
  have second : Together (after twoRanks 1) := by
    apply Together.exchange
    intro rank program found
    have shape : after twoRanks 1 = [swappingNow 1 1, swappingNow 2 0] := rfl
    rw [shape] at found ⊢
    match rank with
    | 0 =>
        cases found
        exact ⟨_, _, _, _, rfl, by simp, by simp, by simp [Neighbor.stop], by simp, by
          simp [swappingNow]⟩
    | 1 =>
        cases found
        exact ⟨_, _, _, _, rfl, by simp, by simp, by simp [Neighbor.stop], by simp, by
          simp [swappingNow]⟩
    | rank + 2 => cases found
  have last : Ended (after twoRanks 2) := by
    intro program member
    have shape : ∃ a b, after twoRanks 2 = [.done a, .done b] := ⟨_, _, rfl⟩
    obtain ⟨a, b, same⟩ := shape
    rw [same] at member
    rcases List.mem_pair.mp member with rfl | rfl
    · exact ⟨a, rfl⟩
    · exact ⟨b, rfl⟩
  intro rounds
  match rounds with
  | 0 => exact first
  | 1 => exact second
  | rounds + 2 =>
      rw [Nat.add_comm, ← after_after, last.after_eq]
      exact .ended last

theorem two_ranks_reach : Steps (start twoRanks) twoRanksSummed := by
  have begun := Steps.refl (start twoRanks)
  have wrote0 := begun.tail (@Step.access _ _ _ _ 0 _ _ _ rfl rfl)
  have wrote1 := wrote0.tail (@Step.access _ _ _ _ 1 _ _ _ rfl rfl)
  have passed0 := wrote1.tail (@Step.pass _ _ _ _ 0 _ _ rfl rfl (by decide))
  have passed1 := passed0.tail (@Step.pass _ _ _ _ 1 _ _ rfl rfl (by decide))
  have read0 := passed1.tail (@Step.access _ _ _ _ 0 _ _ _ rfl rfl)
  have read1 := read0.tail (@Step.access _ _ _ _ 1 _ _ _ rfl rfl)
  exact read1

theorem two_ranks_return :
    Agreed twoRanks ∧ Steps (start twoRanks) twoRanksSummed ∧
      ∃ next, Step twoRanksSummed next ∧ ∃ member call answered,
        next.members[0]? = some member ∧ (after twoRanks 0)[0]? = some call ∧
          Returned (after twoRanks 0) 0 call answered ∧ member.thread = answered.thread := by
  have step := @Step.pass _ _ _ twoRanksSummed 0 _ _ rfl rfl (by decide)
  obtain ⟨call, answered, found, returned, _, same⟩ :=
    (calls_return_in_every_order two_ranks_agreed two_ranks_reach).1 _ step 0 _ _ 0 rfl rfl rfl rfl
  exact ⟨two_ranks_agreed, two_ranks_reach, _, step, _, call, answered, rfl, found, returned, same⟩

end Runs
end Relaxation.Group

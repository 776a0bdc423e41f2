import Relaxation.Proofs.Interleaving
import Relaxation.Proofs.Script

/-!
A group whose ranks follow one script. Nobody is two barriers ahead of another, so all who
read a sum read the same total and go on with the same calls, in whatever order their steps
are taken. A rank that fails stays where it is, and takes nothing back.
-/

namespace Relaxation

variable {α β δ : Type}

theorem Shared.slots_collect (rank : Nat) (neighbors : List Neighbor) (ghost : Array α)
    (shared : Shared α) : (shared.collect rank neighbors ghost).2.slots = shared.slots := by
  induction neighbors generalizing ghost shared with
  | nil => rfl
  | cons neighbor rest ih =>
      unfold collect
      cases shared.message? neighbor.rank rank with
      | none => rfl
      | some data =>
          dsimp only
          cases neighbor.store ghost data with
          | error fault => rfl
          | ok ghost => exact ih ghost _

theorem Thread.wait_of_pass {thread next : Thread α β} (moved : thread.pass? = some next) :
    thread = .wait next := by
  cases thread with
  | wait => exact congrArg Thread.wait (Option.some.inj moved)
  | done | put | total | post | collect => cases moved

section Following

variable [Arithmetic α] {view : β → Option δ} {program : Collective α β} {script : Script α δ}
  {rank : Nat} {shared after : Shared α} {thread : Thread α β}

theorem Follows.write (follows : Follows view program script)
    (moved : program.thread.access rank shared = some (thread, after)) :
    (∀ shown, script ≠ .stop shown) ∧ program.thread.enters = script.call? ∧
      ((thread = .wait (Group.reading program) ∧ ∀ result, program ≠ .done result) ∨
        ∃ result, thread = .done result ∧ view result = none ∧ after.slots = shared.slots) := by
  have entered := Thread.enters_of_program program
  cases follows with
  | failed | stop => cases moved
  | sum =>
      cases moved
      exact ⟨by rintro _ ⟨⟩, rfl, .inl ⟨rfl, by rintro _ ⟨⟩⟩⟩
  | @exchange neighbors owned ghost next script _ unanswered =>
      refine ⟨by rintro _ ⟨⟩, entered, ?_⟩
      unfold Collective.thread at moved
      generalize parcels owned neighbors = sent at moved
      obtain ⟨packed, fault | _⟩ := sent
      · obtain ⟨result, ended, lost⟩ := unanswered fault ghost
        cases moved
        exact .inr ⟨result, by rw [ended]; rfl, lost, Shared.slots_post ..⟩
      · cases moved
        exact .inl ⟨rfl, by rintro _ ⟨⟩⟩

theorem Follows.read (follows : Follows view program script)
    (moved : (Group.reading program).access rank shared = some (thread, after)) :
    after.slots = shared.slots ∧
      ((∃ later, thread = .wait later.thread ∧ Follows view later (script.next shared.total)) ∨
        ∃ result, thread = .done result ∧ view result = none) := by
  cases follows with
  | failed | stop => cases moved
  | sum rest =>
      cases moved
      exact ⟨rfl, .inl ⟨_, rfl, rest _⟩⟩
  | @exchange neighbors owned ghost next script answered unanswered =>
      have slots := Shared.slots_collect rank neighbors ghost shared
      cases taken : shared.collect rank neighbors ghost with | mk answer left
      obtain ⟨outcome, filled⟩ := answer
      rw [taken] at slots
      simp only [Group.reading, Thread.access, taken] at moved
      obtain fault | _ := outcome
      · obtain ⟨result, ended, lost⟩ := unanswered fault filled
        cases moved
        exact ⟨slots, .inr ⟨result, by rw [ended]; rfl, lost⟩⟩
      · cases moved
        exact ⟨slots, .inl ⟨_, rfl, answered filled⟩⟩

end Following

namespace Group

/-- A rank after so many of the four steps of a call, and the calls that it has entered from
this one on. A rank that has failed did so in front of a write or of a read. -/
inductive Stands (view : β → Option δ) (script : Script α δ) (total : α) :
    Nat → List Call → Thread α β → Prop where
  | outside {program : Collective α β} (follows : Follows view program script) :
      Stands view script total 0 program.thread.enters.toList program.thread
  | wrote {program : Collective α β} (follows : Follows view program script)
      (calls : ∀ result, program ≠ .done result) :
      Stands view script total 1 script.call?.toList (.wait (reading program))
  | reads {program : Collective α β} (follows : Follows view program script)
      (calls : ∀ result, program ≠ .done result) :
      Stands view script total 2 script.call?.toList (reading program)
  | heard {program : Collective α β} (follows : Follows view program (script.next total)) :
      Stands view script total 3 script.call?.toList (.wait program.thread)
  | failed {steps : Nat} {result : β} (even : steps % 2 = 0) (lost : view result = none) :
      Stands view script total steps script.call?.toList (.done result)

section Stands

variable {view : β → Option δ} {script : Script α δ} {total : α} {steps : Nat}
  {since : List Call} {thread : Thread α β}

theorem waiting_reading (program : Collective α β) : (reading program).waiting = false := by
  cases program <;> rfl

theorem Stands.waiting (stands : Stands view script total steps since thread) :
    thread.waiting = true ↔ steps % 2 = 1 := by
  cases stands with
  | outside => simp [waiting_thread]
  | wrote | heard => simp [Thread.waiting]
  | reads => simp [waiting_reading]
  | failed even => simp [Thread.waiting, even]

theorem Stands.unread (stands : Stands view script total steps since thread) (before : steps < 3)
    (other : α) : Stands view script other steps since thread := by
  cases stands with
  | outside follows => exact .outside follows
  | wrote follows calls => exact .wrote follows calls
  | reads follows calls => exact .reads follows calls
  | heard => exact absurd before (Nat.lt_irrefl 3)
  | failed even lost => exact .failed even lost

theorem Stands.entered (stands : Stands view script total steps since thread) :
    since <+: script.call?.toList := by
  cases stands with
  | outside follows => exact follows.enters
  | wrote | reads | heard | failed => exact List.prefix_refl _

theorem Stands.shown {result : β} {shown : δ} (stands : Stands view script total steps since (.done result))
    (holds : view result = some shown) : script = .stop (some shown) ∧ since = [] ∧ steps = 0 := by
  generalize ended : Thread.done result = thread at stands
  cases stands with
  | @outside program follows =>
      have quiet := Thread.enters_of_program program
      cases follows with
      | failed lost =>
          cases ended
          rw [lost] at holds
          cases holds
      | stop =>
          cases ended
          exact ⟨congrArg Script.stop holds, rfl, rfl⟩
      | sum => cases ended
      | exchange =>
          rw [← ended] at quiet
          cases quiet
  | wrote | heard => cases ended
  | @reads program follows calls =>
      cases program with
      | done result => exact absurd rfl (calls result)
      | sum | exchange => cases ended
  | failed even lost =>
      cases ended
      rw [lost] at holds
      cases holds

end Stands

section Accesses

variable [Arithmetic α] (program : Collective α β) (calls : ∀ result, program ≠ .done result)
  (rank : Nat) (shared : Shared α)

include calls

theorem accesses_thread : ∃ moved, program.thread.access rank shared = some moved := by
  cases program with
  | done result => exact absurd rfl (calls result)
  | sum => exact ⟨_, rfl⟩
  | exchange neighbors owned ghost next =>
      unfold Collective.thread
      rcases parcels owned neighbors with ⟨packed, _ | _⟩ <;> exact ⟨_, rfl⟩

theorem accesses_reading : ∃ moved, (reading program).access rank shared = some moved := by
  cases program with
  | done result => exact absurd rfl (calls result)
  | sum | exchange => exact ⟨_, rfl⟩

end Accesses

structure Standing (view : β → Option δ) (script : Script α δ) (totals : Nat → α)
    (entered : List Call) (member : Member α β) (position : Nat) : Prop where
  passed : member.passed = position / 2
  place : ∃ since, entered = script.calls totals (position / 4) ++ since ∧
    Stands view (script.after totals (position / 4)) (totals (position / 4)) (position % 4) since
      member.thread

/-- All ranks on one script. While one has read in a call that another still has to read in,
the slots show the total that the first one got. -/
structure InStep [Arithmetic α] (view : β → Option δ) (script : Script α δ) (totals : Nat → α)
    (entered : Nat → List Call) (state : State α β) (position : Nat → Nat) : Prop where
  standing : ∀ rank member, state.members[rank]? = some member →
    Standing view script totals (entered rank) member (position rank)
  near : ∀ i j, i < state.members.length → j < state.members.length →
    position i / 2 ≤ (position j + 1) / 2
  stopped : ∀ rank, rank < state.members.length → ∀ rounds shown,
    script.after totals rounds = .stop shown → position rank ≤ 4 * rounds
  read : ∀ i j rounds, i < state.members.length → j < state.members.length →
    4 * rounds + 3 ≤ position i → position j ≤ 4 * rounds + 2 → state.shared.total = totals rounds

section Moving

variable [Arithmetic α] {view : β → Option δ} {script : Script α δ} {totals : Nat → α}
  {entered : Nat → List Call} {state : State α β} {position : Nat → Nat} {rank : Nat}
  {member : Member α β} {thread : Thread α β}

theorem InStep.arrived (inStep : InStep view script totals entered state position)
    (found : state.members[rank]? = some member) : member.arrived = (position rank + 1) / 2 := by
  obtain ⟨passed, _, _, stands⟩ := inStep.standing rank member found
  have waits := stands.waiting
  unfold Member.arrived
  rw [passed]
  by_cases waiting : member.thread.waiting = true
  · rw [if_pos waiting]
    have odd := waits.mp waiting
    omega
  · rw [if_neg waiting]
    have even := mt waits.mpr waiting
    omega

/-- A total that nobody has read can be what the slots show now. So there is always one that
a reader gets. -/
theorem InStep.settle (inStep : InStep view script totals entered state position)
    (inside : rank < state.members.length) :
    ∃ totals', InStep view script totals' entered state position ∧
      (position rank % 4 = 2 → totals' (position rank / 4) = state.shared.total) := by
  by_cases reads : position rank % 4 = 2
  · by_cases known : ∃ other, other < state.members.length ∧
        4 * (position rank / 4) + 3 ≤ position other
    · obtain ⟨other, inside', ahead⟩ := known
      exact ⟨totals, inStep, fun _ =>
        (inStep.read other rank _ inside' inside ahead (by omega)).symm⟩
    · have behind : ∀ other, other < state.members.length →
          position other ≤ 4 * (position rank / 4) + 2 := by
        intro other inside'
        by_contra beyond
        exact known ⟨other, inside', by omega⟩
      generalize position rank / 4 = now at behind
      have earlier : ∀ round, round < now →
          Function.update totals now state.shared.total round = totals round :=
        fun round before => Function.update_of_ne (Nat.ne_of_lt before) ..
      have same : ∀ rounds, rounds ≤ now →
          script.after (Function.update totals now state.shared.total) rounds =
              script.after totals rounds ∧
            script.calls (Function.update totals now state.shared.total) rounds =
              script.calls totals rounds := fun rounds bound =>
        ⟨Script.after_congr fun round before => earlier round (Nat.lt_of_lt_of_le before bound),
          Script.calls_congr fun round before => earlier round (Nat.lt_of_lt_of_le before bound)⟩
      refine ⟨Function.update totals now state.shared.total, ⟨?_, inStep.near, ?_, ?_⟩, fun _ =>
        Function.update_self ..⟩
      · intro other member found
        have bound := behind other (List.getElem?_eq_some_iff.mp found).1
        obtain ⟨passed, since, logged, stands⟩ := inStep.standing other member found
        obtain ⟨left, calls⟩ := same (position other / 4) (by omega)
        refine ⟨passed, since, calls ▸ logged, ?_⟩
        rw [left]
        by_cases here : position other / 4 = now
        · exact stands.unread (by omega) _
        · rwa [earlier _ (by omega)]
      · intro other inside' rounds shown ends
        have bound := behind other inside'
        by_cases late : rounds ≤ now
        · exact inStep.stopped other inside' rounds shown ((same rounds late).1 ▸ ends)
        · omega
      · intro i j rounds insideI insideJ ahead after
        have bound := behind i insideI
        rw [earlier rounds (by omega)]
        exact inStep.read i j rounds insideI insideJ ahead after
  · exact ⟨totals, inStep, fun reading => absurd reading reads⟩

theorem InStep.move (inStep : InStep view script totals entered state position)
    (found : state.members[rank]? = some member) {shared : Shared α} {place : Nat}
    (forward : place = position rank ∨ place = position rank + 1)
    (opened : place / 2 = position rank / 2 ∨
      ∀ other, other < state.members.length → position rank ≤ position other)
    (standing : Standing view script totals (entered rank ++ thread.enters.toList)
      ⟨thread, place / 2⟩ place)
    (going : position rank % 4 = 0 → place = position rank ∨
      ∀ shown, script.after totals (position rank / 4) ≠ .stop shown)
    (slots : shared.total = state.shared.total ∨ position rank % 4 = 0 ∧ place = position rank + 1)
    (heard : place % 4 = 3 → place = position rank ∨ totals (place / 4) = state.shared.total) :
    InStep view script totals (entering entered rank thread)
      ⟨shared, state.members.set rank ⟨thread, place / 2⟩⟩
      (Function.update position rank place) where
  standing := by
    intro other member' found'
    unfold entering
    by_cases here : other = rank
    · subst here
      rw [List.getElem?_set_self (List.getElem?_eq_some_iff.mp found).1] at found'
      cases found'
      rwa [Function.update_self, Function.update_self]
    · rw [List.getElem?_set_ne (Ne.symm here)] at found'
      rw [Function.update_of_ne here, Function.update_of_ne here]
      exact inStep.standing other member' found'
  near := by
    intro i j insideI insideJ
    rw [List.length_set] at insideI insideJ
    have bound := inStep.near i j insideI insideJ
    simp only [Function.update_apply]
    split
    · rename_i first
      subst first
      split
      · omega
      · rcases opened with same | all
        · omega
        · have ahead := all j insideJ
          omega
    · split
      · rename_i second
        subst second
        omega
      · exact bound
  stopped := by
    intro other inside rounds shown ends
    rw [List.length_set] at inside
    have bound := inStep.stopped other inside rounds shown ends
    by_cases here : other = rank
    · subst here
      rw [Function.update_self]
      by_cases last : position other = 4 * rounds
      · rcases going (by omega) with still | goes
        · omega
        · have round : position other / 4 = rounds := by omega
          exact absurd (round ▸ ends) (goes shown)
      · omega
    · rwa [Function.update_of_ne here]
  read := by
    intro i j rounds insideI insideJ ahead behind
    rw [List.length_set] at insideI insideJ
    have inside := (List.getElem?_eq_some_iff.mp found).1
    have early : position j ≤ 4 * rounds + 2 := by
      by_cases own : j = rank
      · subst own
        rw [Function.update_self] at behind
        omega
      · rwa [Function.update_of_ne own] at behind
    by_cases first : 4 * rounds + 3 ≤ position i
    · have old := inStep.read i j rounds insideI insideJ first early
      rcases slots with same | ⟨writes, _⟩
      · exact same.trans old
      · -- a rank that writes would be a call ahead of the one that has still to read
        have near := inStep.near i rank insideI inside
        have near' := inStep.near rank j inside insideJ
        omega
    · -- it is this step that reads the total
      have own : i = rank := by
        by_contra other
        rw [Function.update_of_ne other] at ahead
        omega
      subst own
      rw [Function.update_self] at ahead
      have round : place / 4 = rounds := by omega
      rcases slots with same | ⟨writes, _⟩
      · rcases heard (by omega) with still | total
        · omega
        · rw [round] at total
          exact same.trans total.symm
      · omega

omit [Arithmetic α] in
theorem standing_at {calls since : List Call} {place round steps : Nat}
    (stands : Stands view (script.after totals round) (totals round) steps since thread)
    (logged : calls = script.calls totals round ++ since) (small : steps < 4)
    (position : place = 4 * round + steps) : Standing view script totals calls ⟨thread, place / 2⟩ place := by
  have now : place / 4 = round := by omega
  have phase : place % 4 = steps := by omega
  exact ⟨rfl, since, now ▸ logged, by rw [now, phase]; exact stands⟩

theorem InStep.access (inStep : InStep view script totals entered state position)
    (found : state.members[rank]? = some member) {shared : Shared α}
    (moved : member.thread.access rank state.shared = some (thread, shared)) :
    ∃ totals position, InStep view script totals (entering entered rank thread)
      ⟨shared, state.members.set rank { member with thread := thread }⟩ position := by
  obtain ⟨totals, inStep, total⟩ := inStep.settle (List.getElem?_eq_some_iff.mp found).1
  refine ⟨totals, ?_⟩
  obtain ⟨passed, since, logged, stands⟩ := inStep.standing rank member found
  obtain ⟨current, barriers⟩ := member
  cases (show barriers = position rank / 2 from passed)
  dsimp only at stands moved ⊢
  generalize phase : position rank % 4 = steps at stands
  have same : position rank % 2 = 0 → position rank / 2 = (position rank + 1) / 2 := by omega
  cases stands with
  | outside follows =>
      obtain ⟨goes, enters, ⟨rfl, calls⟩ | ⟨result, rfl, lost, slots⟩⟩ := follows.write moved
      · rw [same (by omega)]
        refine ⟨_, inStep.move found (.inr rfl) (.inl (same (by omega)).symm) ?_
          (fun _ => .inr goes) (.inr ⟨phase, rfl⟩) fun third => ?_⟩
        · rw [enters] at logged
          exact standing_at (.wrote follows calls) ((List.append_nil _).trans logged) (by decide) (by omega)
        · omega
      · refine ⟨_, inStep.move found (.inl rfl) (.inl rfl) ?_ (fun _ => .inl rfl)
          (.inl (congrArg Arithmetic.total slots)) fun _ => .inl rfl⟩
        rw [enters] at logged
        exact standing_at (show Stands view _ _ 0 _ _ from .failed rfl lost)
          ((List.append_nil _).trans logged) (by decide) (by omega)
  | wrote => cases moved
  | reads follows calls =>
      obtain ⟨slots, ⟨later, rfl, follows'⟩ | ⟨result, rfl, lost⟩⟩ := follows.read moved
      · rw [same (by omega)]
        refine ⟨_, inStep.move found (.inr rfl) (.inl (same (by omega)).symm) ?_
          (fun first => ?_) (.inl (congrArg Arithmetic.total slots)) fun _ => .inr ?_⟩
        · rw [← total phase] at follows'
          exact standing_at (.heard follows') ((List.append_nil _).trans logged) (by decide) (by omega)
        · omega
        · have round : (position rank + 1) / 4 = position rank / 4 := by omega
          rw [round, total phase]
      · refine ⟨_, inStep.move found (.inl rfl) (.inl rfl) ?_ (fun _ => .inl rfl)
          (.inl (congrArg Arithmetic.total slots)) fun _ => .inl rfl⟩
        exact standing_at (show Stands view _ _ 2 _ _ from .failed rfl lost)
          ((List.append_nil _).trans logged) (by decide) (by omega)
  | heard => cases moved
  | failed => cases moved

theorem InStep.pass (inStep : InStep view script totals entered state position)
    (found : state.members[rank]? = some member) (moved : member.thread.pass? = some thread)
    (reached : ∀ other ∈ state.members, member.passed < other.arrived) :
    ∃ position, InStep view script totals (entering entered rank thread)
      ⟨state.shared, state.members.set rank ⟨thread, member.passed + 1⟩⟩ position := by
  obtain ⟨passed, since, logged, stands⟩ := inStep.standing rank member found
  have held := Thread.wait_of_pass moved
  have odd : position rank % 4 % 2 = 1 := stands.waiting.mp (held ▸ rfl)
  have opened : ∀ other, other < state.members.length → position rank ≤ position other := by
    intro other inside
    have before := reached _ (List.getElem_mem inside)
    rw [inStep.arrived (List.getElem?_eq_getElem inside)] at before
    omega
  have same : member.passed + 1 = (position rank + 1) / 2 := by omega
  rw [same]
  refine ⟨_, inStep.move found (.inr rfl) (.inr opened) ?_ (fun _ => by omega) (.inl rfl)
    fun _ => by omega⟩
  generalize member.thread = current at stands held
  generalize phase : position rank % 4 = steps at stands odd
  cases stands with
  | outside | failed | reads => omega
  | @wrote program follows calls =>
      cases held
      have quiet : (reading program).enters = none := by cases program <;> rfl
      rw [quiet]
      exact standing_at (.reads follows calls) ((List.append_nil _).trans logged) (by decide) (by omega)
  | heard follows =>
      cases held
      have next : Stands view (script.after totals (position rank / 4 + 1))
          (totals (position rank / 4 + 1)) 0 _ _ := .outside follows
      exact standing_at next (congrArg (· ++ _) logged) (by decide) (by omega)

/-- What all come to: the calls of all ranks are the first ones of the same sequence, and a
rank that has something to show has made them all. -/
theorem InStep.together (inStep : InStep view script totals entered state position) :
    ∃ rounds, ∀ rank member, state.members[rank]? = some member →
      entered rank <+: script.calls totals rounds ∧
        ∀ result shown, member.thread = .done result → view result = some shown →
          script.after totals rounds = .stop (some shown) ∧
            entered rank = script.calls totals rounds := by
  refine ⟨position 0 / 4 + 2, fun rank member found => ?_⟩
  have inside := (List.getElem?_eq_some_iff.mp found).1
  have near := inStep.near rank 0 inside (Nat.zero_lt_of_lt inside)
  have bound : position rank / 4 + 1 ≤ position 0 / 4 + 2 := by omega
  obtain ⟨_, since, logged, stands⟩ := inStep.standing rank member found
  constructor
  · rw [logged]
    apply List.IsPrefix.trans _ (Script.calls_prefix bound)
    exact (List.prefix_append_right_inj _).mpr stands.entered
  · intro result shown ended holds
    rw [ended] at stands
    obtain ⟨stopped, rfl, _⟩ := stands.shown holds
    obtain ⟨still, same⟩ := Script.after_stop stopped (Nat.le_of_succ_le bound)
    exact ⟨still, by rw [logged, List.append_nil, same]⟩

theorem InStep.ended (inStep : InStep view script totals entered state position)
    (found : state.members[rank]? = some member) {result : β} {shown : δ}
    (ended : member.thread = .done result) (holds : view result = some shown) {other : Nat}
    (inside : other < state.members.length) : position other ≤ position rank := by
  obtain ⟨_, _, _, stands⟩ := inStep.standing rank member found
  rw [ended] at stands
  obtain ⟨stopped, _, start⟩ := stands.shown holds
  have bound := inStep.stopped other inside _ _ stopped
  omega

theorem InStep.moves (inStep : InStep view script totals entered state position)
    (found : state.members[rank]? = some member) (goes : ∀ result, member.thread ≠ .done result)
    (last : ∀ other, other < state.members.length → position rank ≤ position other) :
    ∃ next, Step state next := by
  obtain ⟨passed, since, _, stands⟩ := inStep.standing rank member found
  have opened : position rank % 4 % 2 = 1 → ∀ other ∈ state.members,
      member.passed < other.arrived := by
    intro odd other listed
    obtain ⟨index, theirs⟩ := List.mem_iff_getElem?.mp listed
    have behind := last index (List.getElem?_eq_some_iff.mp theirs).1
    rw [inStep.arrived theirs]
    omega
  obtain ⟨current, barriers⟩ := member
  dsimp only at goes stands opened
  generalize position rank % 4 = steps at stands opened
  cases stands with
  | @outside program follows =>
      obtain ⟨moved, accessed⟩ := accesses_thread program
        (fun result same => goes result (same ▸ rfl)) rank state.shared
      exact ⟨_, .access found accessed⟩
  | reads follows calls =>
      obtain ⟨moved, accessed⟩ := accesses_reading _ calls rank state.shared
      exact ⟨_, .access found accessed⟩
  | wrote | heard => exact ⟨_, .pass found rfl (opened rfl)⟩
  | failed => exact absurd rfl (goes _)

theorem InStep.progress (inStep : InStep view script totals entered state position)
    (sound : ∀ (rank : Nat) (member : Member α β) result, state.members[rank]? = some member →
      member.thread = .done result → ∃ shown, view result = some shown) :
    (∀ member ∈ state.members, ∃ result, member.thread = .done result) ∨
      ∃ next, Step state next := by
  classical
  apply or_iff_not_imp_left.mpr
  intro unfinished
  let going := (Finset.range state.members.length).filter fun rank =>
    ∃ member, state.members[rank]? = some member ∧ ∀ result, member.thread ≠ .done result
  have nonempty : going.Nonempty := by
    push Not at unfinished
    obtain ⟨member, listed, goes⟩ := unfinished
    obtain ⟨rank, found⟩ := List.mem_iff_getElem?.mp listed
    exact ⟨rank, Finset.mem_filter.mpr
      ⟨Finset.mem_range.mpr (List.getElem?_eq_some_iff.mp found).1, member, found, goes⟩⟩
  -- a rank that has ended is not ahead of the last one that has not
  obtain ⟨rank, listed, least⟩ := going.exists_min_image position nonempty
  obtain ⟨_, member, found, goes⟩ := Finset.mem_filter.mp listed
  refine inStep.moves found goes fun other inside => ?_
  by_cases behind : other ∈ going
  · exact least other behind
  · have found' := List.getElem?_eq_getElem inside
    have ended : ∃ result, state.members[other].thread = .done result := by
      by_contra none
      push Not at none
      exact behind (Finset.mem_filter.mpr ⟨Finset.mem_range.mpr inside, _, found', none⟩)
    obtain ⟨result, ended⟩ := ended
    obtain ⟨shown, holds⟩ := sound other _ result found' ended
    exact inStep.ended found' ended holds (List.getElem?_eq_some_iff.mp found).1

end Moving

section Runs

variable [Arithmetic α] {view : β → Option δ} {script : Script α δ}
  {programs : List (Collective α β)} {state : State α β} {entered : Nat → List Call}

theorem Runs.length (runs : Runs programs state entered) :
    state.members.length = programs.length := by
  induction runs with
  | start => exact List.length_map ..
  | access _ _ _ ih => exact List.length_set.trans ih
  | pass _ _ _ _ ih => exact List.length_set.trans ih

theorem Runs.in_step (follows : ∀ program ∈ programs, Follows view program script)
    (runs : Runs programs state entered) :
    ∃ totals position, InStep view script totals entered state position := by
  induction runs with
  | start =>
      refine ⟨fun _ => 0, fun _ => 0, ?_, ?_, ?_, ?_⟩
      · intro rank member found
        simp only [Group.start, List.getElem?_map] at found
        obtain ⟨program, listed, rfl⟩ := Option.map_eq_some_iff.mp found
        rw [listed]
        have outside : Stands view (script.after (fun _ => 0) 0) 0 0 _ _ :=
          .outside (follows program (List.mem_of_getElem? listed))
        exact standing_at outside rfl (by decide) rfl
      · exact fun _ _ _ _ => Nat.zero_le _
      · exact fun _ _ _ _ _ => Nat.zero_le _
      · exact fun _ _ rounds _ _ ahead => absurd ahead (by omega)
  | access _ found moved ih =>
      obtain ⟨totals, position, inStep⟩ := ih
      exact inStep.access found moved
  | pass _ found moved reached ih =>
      obtain ⟨totals, position, inStep⟩ := ih
      obtain ⟨position, inStep⟩ := inStep.pass found moved reached
      exact ⟨totals, position, inStep⟩

end Runs
end Group
end Relaxation

import Relaxation.Group
import Relaxation.Proofs.Run

/-!
What a rank can come to in a group. The totals it is told may be any, but an exchange is answered
by collecting from a mailbox, and this bounds what an answer can change. Every result that a rank
reaches, in whatever order the group takes its steps, is one that its program returns so.
-/

namespace Relaxation

variable {α β γ : Type}

namespace Collective

/-- What a group answers to an exchange: some parcel cannot be packed, and nothing has come in;
or what a rank has collected from a mailbox. -/
inductive Answered (neighbors : List Neighbor) (owned ghost : Array α) : Exchanged α → Prop where
  | unsent {packed : List (Nat × Array α)} {fault : Fault}
      (stuck : parcels owned neighbors = (packed, .error fault)) :
      Answered neighbors owned ghost (.error fault, ghost)
  | taken {packed : List (Nat × Array α)} (sent : parcels owned neighbors = (packed, .ok ()))
      (rank : Nat) (shared : Shared α) :
      Answered neighbors owned ghost (shared.collect rank neighbors ghost).1

inductive Returns : Collective α β → β → Prop where
  | done (result : β) : Returns (.done result) result
  | sum {value : α} {next : α → Collective α β} {result : β} (total : α)
      (rest : Returns (next total) result) : Returns (.sum value next) result
  | exchange {neighbors : List Neighbor} {owned ghost : Array α}
      {next : Exchanged α → Collective α β} {answer : Exchanged α} {result : β}
      (answered : Answered neighbors owned ghost answer) (rest : Returns (next answer) result) :
      Returns (.exchange neighbors owned ghost next) result

theorem Returns.ends {program : Collective α β} {result : β} (returns : program.Returns result) :
    program.Ends result := by
  induction returns with
  | done result => exact .done result
  | sum total _ ih => exact .sum total ih
  | exchange _ _ ih => exact .exchange _ ih

theorem returns_done_iff {result other : β} :
    (Collective.done other : Collective α β).Returns result ↔ result = other := by
  constructor
  · rintro ⟨⟩
    rfl
  · rintro rfl
    exact .done _

theorem returns_bind_iff {program : Collective α β} {next : β → Collective α γ} {result : γ} :
    (program.bind next).Returns result ↔
      ∃ between, program.Returns between ∧ (next between).Returns result := by
  constructor
  · intro returns
    induction program with
    | done between => exact ⟨between, .done between, returns⟩
    | sum value rest ih =>
        obtain _ | ⟨total, returns⟩ := returns
        obtain ⟨between, first, second⟩ := ih total returns
        exact ⟨between, .sum total first, second⟩
    | exchange neighbors owned ghost rest ih =>
        obtain _ | _ | ⟨answered, returns⟩ := returns
        obtain ⟨between, first, second⟩ := ih _ returns
        exact ⟨between, .exchange answered first, second⟩
  · rintro ⟨between, first, second⟩
    induction first with
    | done between => exact second
    | sum total _ ih => exact .sum total (ih second)
    | exchange answered _ ih => exact .exchange answered (ih second)

end Collective

open Collective

theorem meet_returns {ε σ : Type} {first : ExceptT ε (StateT σ (Collective α)) β}
    {next : β → ExceptT ε (StateT σ (Collective α)) γ} {before : σ} {result : Except ε γ} {last : σ}
    (returns : ((first >>= next) before).Returns (result, last)) :
    (∃ failure, (first before).Returns (.error failure, last) ∧ result = .error failure) ∨
      ∃ between after, (first before).Returns (.ok between, after) ∧
        (next between after).Returns (result, last) := by
  rw [meet_bind] at returns
  obtain ⟨⟨answer | answer, after⟩, reached, rest⟩ := returns_bind_iff.mp returns
  · obtain ⟨rfl, rfl⟩ := Prod.mk.inj (returns_done_iff.mp rest)
    exact .inl ⟨answer, reached, rfl⟩
  · exact .inr ⟨answer, after, reached, rest⟩

namespace Thread

/-- What a thread can come to, with anything in the slots and in the mailbox at each access. -/
inductive Yields : Thread α β → β → Prop where
  | done (result : β) : Yields (.done result) result
  | put {value : α} {next : Thread α β} {result : β} (rest : Yields next result) :
      Yields (.put value next) result
  | total {next : α → Thread α β} {result : β} (total : α) (rest : Yields (next total) result) :
      Yields (.total next) result
  | post {packed : List (Nat × Array α)} {next : Thread α β} {result : β}
      (rest : Yields next result) : Yields (.post packed next) result
  | collect {neighbors : List Neighbor} {ghost : Array α} {next : Exchanged α → Thread α β}
      {result : β} (rank : Nat) (shared : Shared α)
      (rest : Yields (next (shared.collect rank neighbors ghost).1) result) :
      Yields (.collect neighbors ghost next) result
  | wait {next : Thread α β} {result : β} (rest : Yields next result) : Yields (.wait next) result

section Accesses

variable {next : Thread α β} {result : β}

@[simp] theorem yields_done_iff {other : β} :
    (Thread.done other : Thread α β).Yields result ↔ result = other :=
  ⟨fun | .done _ => rfl, fun same => same ▸ .done _⟩

@[simp] theorem yields_put_iff {value : α} :
    (Thread.put value next).Yields result ↔ next.Yields result :=
  ⟨fun | .put rest => rest, .put⟩

@[simp] theorem yields_total_iff {next : α → Thread α β} :
    (Thread.total next).Yields result ↔ ∃ total, (next total).Yields result :=
  ⟨fun | .total heard rest => ⟨heard, rest⟩, fun ⟨heard, rest⟩ => .total heard rest⟩

@[simp] theorem yields_post_iff {packed : List (Nat × Array α)} :
    (Thread.post packed next).Yields result ↔ next.Yields result :=
  ⟨fun | .post rest => rest, .post⟩

@[simp] theorem yields_collect_iff {neighbors : List Neighbor} {ghost : Array α}
    {next : Exchanged α → Thread α β} : (Thread.collect neighbors ghost next).Yields result ↔
      ∃ rank, ∃ shared : Shared α, (next (shared.collect rank neighbors ghost).1).Yields result :=
  ⟨fun | .collect rank shared rest => ⟨rank, shared, rest⟩,
    fun ⟨rank, shared, rest⟩ => .collect rank shared rest⟩

@[simp] theorem yields_wait_iff : (Thread.wait next).Yields result ↔ next.Yields result :=
  ⟨fun | .wait rest => rest, .wait⟩

end Accesses

theorem returns_of_yields {program : Collective α β} {result : β}
    (yields : program.thread.Yields result) : program.Returns result := by
  induction program with
  | done other => exact returns_done_iff.mpr (yields_done_iff.mp yields)
  | sum value next ih =>
      simp only [Collective.thread, yields_put_iff, yields_wait_iff, yields_total_iff] at yields
      obtain ⟨total, rest⟩ := yields
      exact .sum total (ih total rest)
  | exchange neighbors owned ghost next ih =>
      unfold Collective.thread at yields
      cases packs : parcels owned neighbors with
      | mk packed outcome =>
          rw [packs] at yields
          cases outcome with
          | error fault => exact .exchange (.unsent packs) (ih _ (yields_post_iff.mp yields))
          | ok =>
              simp only [yields_post_iff, yields_wait_iff, yields_collect_iff] at yields
              obtain ⟨rank, shared, rest⟩ := yields
              refine .exchange (.taken packs rank shared) (ih _ ?_)
              -- a fault leaves the call at once, and otherwise one barrier is still ahead
              cases taken : (shared.collect rank neighbors ghost).1.1 with
              | error fault => simpa only [taken] using rest
              | ok => simpa only [taken, yields_wait_iff] using rest

variable [Arithmetic α] {thread next : Thread α β} {rank : Nat} {shared after : Shared α}
  {result : β}

theorem yields_of_access (moved : thread.access rank shared = some (next, after))
    (yields : next.Yields result) : thread.Yields result := by
  cases thread with
  | done | wait => cases moved
  | put value rest =>
      cases moved
      exact .put yields
  | total rest =>
      cases moved
      exact .total _ yields
  | post packed rest =>
      cases moved
      exact .post yields
  | collect neighbors ghost rest =>
      cases moved
      exact .collect rank shared yields

omit [Arithmetic α] in
theorem yields_of_pass (moved : thread.pass? = some next) (yields : next.Yields result) :
    thread.Yields result := by
  cases thread with
  | wait rest =>
      cases moved
      exact .wait yields
  | done | put | total | post | collect => cases moved

end Thread

namespace Group

variable [Arithmetic α] {first last : State α β} {rank : Nat}

theorem yields_of_step (step : Step first last) {later : Member α β}
    (found : last.members[rank]? = some later) :
    ∃ earlier, first.members[rank]? = some earlier ∧
      ∀ result, later.thread.Yields result → earlier.thread.Yields result := by
  have moved : ∀ {mover : Nat} {member changed : Member α β},
      first.members[mover]? = some member →
      (first.members.set mover changed)[rank]? = some later →
      (∀ result, changed.thread.Yields result → member.thread.Yields result) →
      ∃ earlier, first.members[rank]? = some earlier ∧
        ∀ result, later.thread.Yields result → earlier.thread.Yields result := by
    intro mover member changed placed listed yields
    by_cases own : mover = rank
    · subst own
      rw [List.getElem?_set_self (List.getElem?_eq_some_iff.mp placed).1] at listed
      cases listed
      exact ⟨member, placed, yields⟩
    · rw [List.getElem?_set_ne own] at listed
      exact ⟨later, listed, fun _ same => same⟩
  cases step with
  | access placed accessed => exact moved placed found fun _ => Thread.yields_of_access accessed
  | pass placed passed _ => exact moved placed found fun _ => Thread.yields_of_pass passed

/-- In whatever order the steps are taken, a rank that comes to its end has returned what its
program can. The induction is on the steps, back from the end. -/
theorem returns_of_steps {programs : List (Collective α β)} {program : Collective α β}
    {state : State α β} {passed : Nat} {result : β} (steps : Steps (start programs) state)
    (placed : programs[rank]? = some program)
    (ended : state.members[rank]? = some ⟨.done result, passed⟩) : program.Returns result := by
  suffices yields : ∀ {later : Member α β}, state.members[rank]? = some later →
      ∀ result, later.thread.Yields result → program.thread.Yields result from
    Thread.returns_of_yields (yields ended result (.done result))
  clear ended
  generalize begun : start programs = origin at steps
  induction steps with
  | refl =>
      subst begun
      intro later found result yields
      simp only [start, List.getElem?_map, placed, Option.map_some] at found
      cases found
      exact yields
  | tail before step ih =>
      intro later found result yields
      obtain ⟨earlier, found', back⟩ := yields_of_step step found
      exact ih found' result (back result yields)

end Group
end Relaxation

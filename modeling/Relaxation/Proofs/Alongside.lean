import Relaxation.Proofs.Agreement
import Relaxation.Proofs.Mailbox

/-!
Ranks in exchange for each other. A rank whose ghost values are others, but which makes
the same calls and goes on alike with whatever comes in, may take the place of a rank of a
group: every interleaving then goes through with the same results.
-/

namespace Relaxation

variable {α β γ δ ζ : Type}

namespace Shared

/-- What two vectors of ghost values become when the same messages are collected into them. -/
structure CollectedAlike (neighbors : List Neighbor) (ghost ghost' : Array α)
    (first second : Exchanged α × Shared α) : Prop where
  outcome : first.1.1 = second.1.1
  shared : first.2 = second.2
  size : first.1.2.size = ghost.size
  size' : second.1.2.size = ghost'.size
  filled : first.1.1 = .ok () → ∀ index,
    (∃ neighbor ∈ neighbors, neighbor.Covers index) ∨ ghost[index]? = ghost'[index]? →
      first.1.2[index]? = second.1.2[index]?

/-- The messages taken do not depend on the ghost values, and those that a neighbor fills are
its own afterwards. The induction is on the neighbors still to be collected from. -/
theorem collect_alike {neighbors : List Neighbor} {width : Nat}
    (inside : ∀ neighbor ∈ neighbors, neighbor.stop ≤ width) {ghost ghost' : Array α}
    (long : width ≤ ghost.size) (long' : width ≤ ghost'.size) (rank : Nat) (shared : Shared α) :
    CollectedAlike neighbors ghost ghost' (shared.collect rank neighbors ghost)
      (shared.collect rank neighbors ghost') := by
  induction neighbors generalizing ghost ghost' shared with
  | nil =>
      refine ⟨rfl, rfl, rfl, rfl, fun _ index same => ?_⟩
      rcases same with ⟨_, listed, _⟩ | same
      · cases listed
      · exact same
  | cons neighbor rest ih =>
      have within : neighbor.start + neighbor.count ≤ width := inside neighbor List.mem_cons_self
      have room : ∀ values : Array α, width ≤ values.size →
          ¬ values.size < neighbor.start + neighbor.count := fun values long =>
        Nat.not_lt.mpr (Nat.le_trans within long)
      cases waits : shared.message? neighbor.rank rank with
      | none =>
          simp only [collect, waits]
          exact ⟨rfl, rfl, rfl, rfl, by rintro ⟨⟩⟩
      | some data =>
          simp only [collect, waits, Neighbor.store, Storage.copyInto, if_neg (room ghost long),
            if_neg (room ghost' long')]
          by_cases fits : data.size = neighbor.count
          · simp only [if_pos fits]
            obtain ⟨outcome, left, size, size', filled⟩ := @ih
              (fun other listed => inside other (List.mem_cons_of_mem _ listed))
              (Storage.overwrite ghost neighbor.start data.toList)
              (Storage.overwrite ghost' neighbor.start data.toList)
              (by rwa [Storage.size_overwrite]) (by rwa [Storage.size_overwrite])
              (shared.discard neighbor.rank rank)
            rw [Storage.size_overwrite] at size size'
            refine ⟨outcome, left, size, size', fun answered index same => filled answered index ?_⟩
            rw [Storage.getElem?_overwrite, Storage.getElem?_overwrite, Array.length_toList, fits]
            -- the neighbor's own values now lie in both vectors, the rest is as it was
            by_cases covered : neighbor.Covers index
            · obtain ⟨after, before⟩ := covered
              have before' : index < neighbor.start + neighbor.count := before
              rw [if_pos ⟨after, before', by omega⟩, if_pos ⟨after, before', by omega⟩]
              exact .inr rfl
            · have outside : ∀ size, ¬(neighbor.start ≤ index ∧
                  index < neighbor.start + neighbor.count ∧ index < size) := fun size hit =>
                covered ⟨hit.1, hit.2.1⟩
              rw [if_neg (outside _), if_neg (outside _)]
              rcases same with ⟨other, listed, covers⟩ | same
              · rcases List.mem_cons.mp listed with rfl | listed
                · exact absurd covers covered
                · exact .inl ⟨other, listed, covers⟩
              · exact .inr same
          · simp only [if_neg fits]
            exact ⟨rfl, rfl, rfl, rfl, by rintro ⟨⟩⟩

end Shared

namespace Collective

/-- Two programs that make the same calls, down to the messages they send and take, and end
with results that `R` relates. Only their ghost values may differ. -/
inductive Alongside (R : β → γ → Prop) : Collective α β → Collective α γ → Prop where
  | done {left : β} {right : γ} (related : R left right) : Alongside R (.done left) (.done right)
  | sum {value : α} {left : α → Collective α β} {right : α → Collective α γ}
      (nexts : ∀ total, Alongside R (left total) (right total)) :
      Alongside R (.sum value left) (.sum value right)
  | exchange {neighbors : List Neighbor} {owned ghost ghost' : Array α}
      {left : Exchanged α → Collective α β} {right : Exchanged α → Collective α γ}
      (unsent : ∀ fault, Alongside R (left (.error fault, ghost)) (right (.error fault, ghost')))
      (taken : ∀ rank (shared : Shared α),
        (shared.collect rank neighbors ghost).1.1 = (shared.collect rank neighbors ghost').1.1 ∧
          (shared.collect rank neighbors ghost).2 = (shared.collect rank neighbors ghost').2)
      (nexts : ∀ rank (shared : Shared α),
        Alongside R (left (shared.collect rank neighbors ghost).1)
          (right (shared.collect rank neighbors ghost').1)) :
      Alongside R (.exchange neighbors owned ghost left) (.exchange neighbors owned ghost' right)

theorem alongside_bind {R : β → γ → Prop} {S : δ → ζ → Prop} {left : Collective α β}
    {right : Collective α γ} {leftNext : β → Collective α δ} {rightNext : γ → Collective α ζ}
    (heads : Alongside R left right)
    (tails : ∀ a b, R a b → Alongside S (leftNext a) (rightNext b)) :
    Alongside S (left.bind leftNext) (right.bind rightNext) := by
  induction heads with
  | done related => exact tails _ _ related
  | sum _ ih => exact .sum ih
  | exchange _ taken _ unsent nexts => exact .exchange unsent taken nexts

theorem alongside_exchange {R : β → γ → Prop} {neighbors : List Neighbor} {width : Nat}
    (inside : ∀ neighbor ∈ neighbors, neighbor.stop ≤ width) {owned ghost ghost' : Array α}
    (long : width ≤ ghost.size) (long' : width ≤ ghost'.size)
    {left : Exchanged α → Collective α β} {right : Exchanged α → Collective α γ}
    (failed : ∀ fault filled filled', filled.size = ghost.size → filled'.size = ghost'.size →
      Alongside R (left (.error fault, filled)) (right (.error fault, filled')))
    (answered : ∀ filled filled', filled.size = ghost.size → filled'.size = ghost'.size →
      (∀ index, (∃ neighbor ∈ neighbors, neighbor.Covers index) ∨ ghost[index]? = ghost'[index]? →
        filled[index]? = filled'[index]?) →
      Alongside R (left (.ok (), filled)) (right (.ok (), filled'))) :
    Alongside R (.exchange neighbors owned ghost left) (.exchange neighbors owned ghost' right) := by
  refine .exchange (fun fault => failed fault ghost ghost' rfl rfl) (fun rank shared => ?_)
    fun rank shared => ?_
  · have alike := Shared.collect_alike inside long long' rank shared
    exact ⟨alike.outcome, alike.shared⟩
  · obtain ⟨outcome, _, size, size', filled⟩ :=
      Shared.collect_alike inside long long' rank shared
    generalize (shared.collect rank neighbors ghost).1 = first at outcome size filled ⊢
    generalize (shared.collect rank neighbors ghost').1 = second at outcome size' filled ⊢
    obtain ⟨result, values⟩ := first
    obtain ⟨result', values'⟩ := second
    cases (show result = result' from outcome)
    cases result with
    | error fault => exact failed fault values values' size size'
    | ok => exact answered values values' size size' (filled rfl)

end Collective

namespace Thread

variable [Arithmetic α]

inductive Alongside : Thread α β → Thread α β → Prop where
  | done (result : β) : Alongside (.done result) (.done result)
  | put (value : α) {left right : Thread α β} (next : Alongside left right) :
      Alongside (.put value left) (.put value right)
  | total {left right : α → Thread α β} (nexts : ∀ total, Alongside (left total) (right total)) :
      Alongside (.total left) (.total right)
  | post (packed : List (Nat × Array α)) {left right : Thread α β} (next : Alongside left right) :
      Alongside (.post packed left) (.post packed right)
  | collect {neighbors : List Neighbor} {ghost ghost' : Array α} {left right : Exchanged α → Thread α β}
      (taken : ∀ rank (shared : Shared α), (shared.collect rank neighbors ghost).2 =
        (shared.collect rank neighbors ghost').2)
      (nexts : ∀ rank (shared : Shared α),
        Alongside (left (shared.collect rank neighbors ghost).1)
          (right (shared.collect rank neighbors ghost').1)) :
      Alongside (.collect neighbors ghost left) (.collect neighbors ghost' right)
  | wait {left right : Thread α β} (next : Alongside left right) :
      Alongside (.wait left) (.wait right)

omit [Arithmetic α] in
theorem alongside_refl (thread : Thread α β) : thread.Alongside thread := by
  induction thread with
  | done result => exact .done result
  | put value next ih => exact .put value ih
  | total next ih => exact .total ih
  | post packed next ih => exact .post packed ih
  | collect neighbors ghost next ih => exact .collect (fun _ _ => rfl) fun _ _ => ih _
  | wait next ih => exact .wait ih

omit [Arithmetic α] in
theorem Alongside.symm {left right : Thread α β} (alongside : left.Alongside right) :
    right.Alongside left := by
  induction alongside with
  | done result => exact .done result
  | put value _ ih => exact .put value ih
  | total _ ih => exact .total ih
  | post packed _ ih => exact .post packed ih
  | collect taken _ ih => exact .collect (fun rank shared => (taken rank shared).symm) ih
  | wait _ ih => exact .wait ih

omit [Arithmetic α] in
theorem alongside_of_program {left right : Collective α β}
    (alongside : left.Alongside Eq right) : left.thread.Alongside right.thread := by
  induction alongside with
  | done same => exact same ▸ .done _
  | sum _ ih => exact .put _ (.wait (.total fun total => .wait (ih total)))
  | @exchange neighbors owned ghost ghost' left right _ taken _ unsent nexts =>
      unfold Collective.thread
      cases parcels owned neighbors with
      | mk packed outcome =>
          cases outcome with
          | error fault => exact .post packed (unsent fault)
          | ok =>
              refine .post packed (.wait (.collect (fun rank shared => (taken rank shared).2)
                fun rank shared => ?_))
              have same := (taken rank shared).1
              have next := nexts rank shared
              generalize (shared.collect rank neighbors ghost).1 = first at same next ⊢
              generalize (shared.collect rank neighbors ghost').1 = second at same next ⊢
              obtain ⟨result, values⟩ := first
              obtain ⟨result', values'⟩ := second
              cases (show result = result' from same)
              cases result with
              | error fault => exact next
              | ok => exact .wait next

variable {left right : Thread α β}

omit [Arithmetic α] in
theorem Alongside.result (alongside : left.Alongside right) : left.result? = right.result? := by
  cases alongside <;> rfl

omit [Arithmetic α] in
theorem Alongside.waiting (alongside : left.Alongside right) : left.waiting = right.waiting := by
  cases alongside <;> rfl

omit [Arithmetic α] in
theorem Alongside.pass {next : Thread α β} (alongside : left.Alongside right)
    (moved : left.pass? = some next) : ∃ next', right.pass? = some next' ∧ next.Alongside next' := by
  cases alongside with
  | wait further =>
      cases moved
      exact ⟨_, rfl, further⟩
  | done | put | total | post | collect => cases moved

theorem Alongside.access {rank : Nat} {shared after : Shared α} {next : Thread α β}
    (alongside : left.Alongside right) (moved : left.access rank shared = some (next, after)) :
    ∃ next', right.access rank shared = some (next', after) ∧ next.Alongside next' := by
  cases alongside with
  | done | wait => cases moved
  | put value further =>
      cases moved
      exact ⟨_, rfl, further⟩
  | total further =>
      cases moved
      exact ⟨_, rfl, further _⟩
  | post packed further =>
      cases moved
      exact ⟨_, rfl, further⟩
  | collect taken further =>
      cases moved
      exact ⟨_, by rw [taken rank shared]; rfl, further rank shared⟩

end Thread

namespace Group

variable [Arithmetic α]

structure State.Alongside (left right : State α β) : Prop where
  shared : left.shared = right.shared
  length : left.members.length = right.members.length
  members : ∀ (rank : Nat) (member member' : Member α β), left.members[rank]? = some member →
    right.members[rank]? = some member' →
      member.passed = member'.passed ∧ member.thread.Alongside member'.thread

variable {left right : State α β}

omit [Arithmetic α] in
theorem State.Alongside.symm (alongside : left.Alongside right) : right.Alongside left where
  shared := alongside.shared.symm
  length := alongside.length.symm
  members rank member member' found found' := by
    obtain ⟨passed, thread⟩ := alongside.members rank member' member found' found
    exact ⟨passed.symm, thread.symm⟩

omit [Arithmetic α] in
theorem State.Alongside.find (alongside : left.Alongside right) {rank : Nat} {member : Member α β}
    (found : left.members[rank]? = some member) : ∃ member', right.members[rank]? = some member' ∧
      member.passed = member'.passed ∧ member.thread.Alongside member'.thread := by
  obtain ⟨inside, _⟩ := List.getElem?_eq_some_iff.mp found
  rw [alongside.length] at inside
  have found' := List.getElem?_eq_getElem inside
  exact ⟨_, found', alongside.members rank _ _ found found'⟩

omit [Arithmetic α] in
theorem State.Alongside.moved (alongside : left.Alongside right) (rank : Nat) (shared : Shared α)
    {member member' : Member α β} (passed : member.passed = member'.passed)
    (thread : member.thread.Alongside member'.thread) :
    State.Alongside ⟨shared, left.members.set rank member⟩
      ⟨shared, right.members.set rank member'⟩ where
  shared := rfl
  length := by simpa using alongside.length
  members other first second found found' := by
    rw [List.getElem?_set] at found found'
    by_cases same : rank = other
    · have length := alongside.length
      rw [if_pos same] at found found'
      split at found
      · rw [if_pos (by omega)] at found'
        cases found
        cases found'
        exact ⟨passed, thread⟩
      · cases found
    · rw [if_neg same] at found found'
      exact alongside.members other first second found found'

omit [Arithmetic α] in
theorem State.Alongside.arrived (alongside : left.Alongside right) {bound : Nat}
    (reached : ∀ other ∈ left.members, bound < other.arrived) :
    ∀ other ∈ right.members, bound < other.arrived := by
  intro other listed
  obtain ⟨rank, inside, found⟩ := List.mem_iff_getElem.mp listed
  obtain ⟨member, found', passed, thread⟩ :=
    alongside.symm.find (List.getElem?_eq_some_iff.mpr ⟨inside, found⟩)
  have here := reached member (List.mem_of_getElem? found')
  unfold Member.arrived at here ⊢
  rwa [passed, thread.waiting]

theorem Step.alongside {last : State α β} (step : Step left last)
    (alongside : left.Alongside right) : ∃ last', Step right last' ∧ last.Alongside last' := by
  cases step with
  | access found moved =>
      obtain ⟨member', found', passed, thread⟩ := alongside.find found
      rw [alongside.shared] at moved
      obtain ⟨next', moved', next⟩ := thread.access moved
      exact ⟨_, .access found' moved', alongside.moved _ _ passed next⟩
  | pass found moved reached =>
      obtain ⟨member', found', passed, thread⟩ := alongside.find found
      obtain ⟨next', moved', next⟩ := thread.pass moved
      rw [passed] at reached
      refine ⟨_, .pass found' moved' (alongside.arrived reached), ?_⟩
      rw [alongside.shared]
      exact alongside.moved _ _ (congrArg (· + 1) passed) next

theorem Steps.alongside {last : State α β} (steps : Steps left last)
    (alongside : left.Alongside right) : ∃ last', Steps right last' ∧ last.Alongside last' := by
  induction steps with
  | refl => exact ⟨right, .refl right, alongside⟩
  | tail _ step ih =>
      obtain ⟨middle, before, between⟩ := ih
      obtain ⟨last', step', there⟩ := step.alongside between
      exact ⟨last', .tail before step', there⟩

def State.results (state : State α β) : List (Option β) :=
  state.members.map fun member => member.thread.result?

omit [Arithmetic α] in
theorem State.Alongside.results (alongside : left.Alongside right) : left.results = right.results := by
  apply List.ext_getElem?
  intro rank
  unfold State.results
  rw [List.getElem?_map, List.getElem?_map]
  cases found : left.members[rank]? with
  | none =>
      have outside := List.getElem?_eq_none_iff.mp found
      rw [List.getElem?_eq_none (alongside.length ▸ outside)]
  | some member =>
      obtain ⟨member', found', _, thread⟩ := alongside.find found
      rw [found', Option.map_some, Option.map_some, thread.result]

/-- In some interleaving these are the results at some moment, with none of a rank that is
not through. -/
def Reaches (programs : List (Collective α β)) (results : List (Option β)) : Prop :=
  ∃ state, Steps (start programs) state ∧ state.results = results

theorem start_alongside {programs : List (Collective α β)} {rank : Nat} {program : Collective α β}
    (found : ∀ own, programs[rank]? = some own → own.thread.Alongside program.thread) :
    (start programs).Alongside (start (programs.set rank program)) where
  shared := by rw [start, start, List.length_set]
  length := by simp [start]
  members other member member' first second := by
    simp only [start, List.getElem?_map, List.getElem?_set] at first second
    obtain ⟨own, placed, rfl⟩ := Option.map_eq_some_iff.mp first
    obtain ⟨own', placed', rfl⟩ := Option.map_eq_some_iff.mp second
    refine ⟨rfl, ?_⟩
    by_cases same : rank = other
    · subst same
      have inside := (List.getElem?_eq_some_iff.mp placed).1
      rw [if_pos rfl, if_pos inside] at placed'
      cases placed'
      exact found own placed
    · rw [if_neg same, placed] at placed'
      cases placed'
      exact own.thread.alongside_refl

/-- A rank can take another's place: the group can come to the same results, and to no
others. -/
theorem reaches_set_iff {programs : List (Collective α β)} {rank : Nat} {own program : Collective α β}
    (found : programs[rank]? = some own) (alongside : own.Alongside Eq program)
    (results : List (Option β)) :
    Reaches (programs.set rank program) results ↔ Reaches programs results := by
  have begun : (start programs).Alongside (start (programs.set rank program)) :=
    start_alongside fun other placed => by
      rw [found] at placed
      cases placed
      exact Thread.alongside_of_program alongside
  constructor
  · rintro ⟨state, steps, rfl⟩
    obtain ⟨state', steps', there⟩ := steps.alongside begun.symm
    exact ⟨state', steps', there.results.symm⟩
  · rintro ⟨state, steps, rfl⟩
    obtain ⟨state', steps', there⟩ := steps.alongside begun
    exact ⟨state', steps', there.results.symm⟩

end Group
end Relaxation

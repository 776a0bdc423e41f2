import Relaxation.Group
import Relaxation.Proofs.Storage
import Mathlib.Tactic.Tauto

/-!
Messages of a group of ranks. Posting and collecting are read off the messages
that wait in the mailbox, never off the order in which they lie there.
-/

namespace Relaxation

variable {α : Type}

namespace Neighbor

def packed (neighbor : Neighbor) (owned : Array α) : Array α :=
  (neighbor.sent.filterMap fun index => owned[index]?).toArray

def Covers (neighbor : Neighbor) (index : Nat) : Prop :=
  neighbor.start ≤ index ∧ index < neighbor.stop

theorem gather_packed {neighbor : Neighbor} {owned : Array α}
    (inside : ∀ index ∈ neighbor.sent, index < owned.size) :
    neighbor.gather owned = .ok (neighbor.packed owned) := by
  have fetched : neighbor.sent.mapM (Storage.fetch owned) =
      .ok (neighbor.sent.filterMap fun index => owned[index]?) := by
    revert inside
    induction neighbor.sent with
    | nil => exact fun _ => rfl
    | cons index rest ih =>
        intro inside
        have head := inside index List.mem_cons_self
        have tail := ih fun other member => inside other (List.mem_cons_of_mem index member)
        rw [List.mapM_cons, Storage.fetch_of_lt head, tail]
        simp [head, bind, Except.bind, pure, Except.pure]
  unfold gather
  rw [fetched]
  rfl

theorem getElem?_packed {neighbor : Neighbor} {owned : Array α}
    (inside : ∀ index ∈ neighbor.sent, index < owned.size) (k : Nat) :
    (neighbor.packed owned)[k]? = neighbor.sent[k]?.bind fun index => owned[index]? := by
  unfold packed
  rw [List.getElem?_toArray]
  revert inside k
  induction neighbor.sent with
  | nil => simp
  | cons index rest ih =>
      intro inside k
      have head := inside index List.mem_cons_self
      have tail := ih fun other member => inside other (List.mem_cons_of_mem index member)
      cases k with
      | zero => simp [head]
      | succ k => simpa [head] using tail k

theorem size_packed {neighbor : Neighbor} {owned : Array α}
    (inside : ∀ index ∈ neighbor.sent, index < owned.size) :
    (neighbor.packed owned).size = neighbor.sent.length := by
  unfold packed
  rw [List.size_toArray]
  revert inside
  induction neighbor.sent with
  | nil => simp
  | cons index rest ih =>
      intro inside
      have head := inside index List.mem_cons_self
      have tail := ih fun other member => inside other (List.mem_cons_of_mem index member)
      simpa [head] using tail

end Neighbor

theorem parcels_packed {owned : Array α} {neighbors : List Neighbor}
    (inside : ∀ neighbor ∈ neighbors, ∀ index ∈ neighbor.sent, index < owned.size) :
    parcels owned neighbors =
      (neighbors.map fun neighbor => (neighbor.rank, neighbor.packed owned), .ok ()) := by
  apply Fault.map_until_ok
  intro neighbor member
  rw [Neighbor.gather_packed (inside neighbor member)]
  rfl

namespace Shared

def Waits (shared : Shared α) (sender receiver : Nat) (data : Array α) : Prop :=
  ((sender, receiver), data) ∈ shared.mailbox

variable {shared : Shared α} {sender receiver : Nat} {data : Array α}

theorem message_of_only (waits : shared.Waits sender receiver data)
    (only : ∀ other, shared.Waits sender receiver other → other = data) :
    shared.message? sender receiver = some data := by
  unfold message?
  cases found : shared.mailbox.lookup (sender, receiver) with
  | none =>
      have absent := List.lookup_eq_none_iff.mp found _ waits
      simp at absent
  | some other =>
      obtain ⟨before, after, split, _⟩ := List.lookup_eq_some_iff.mp found
      have member : shared.Waits sender receiver other := by
        unfold Waits
        rw [split]
        simp
      rw [only other member]

theorem waits_deliver {source target : Nat} {sent : Array α} :
    (shared.deliver source target sent).Waits sender receiver data ↔
      ((sender = source ∧ receiver = target) ∧ data = sent) ∨
        (¬(sender = source ∧ receiver = target) ∧ shared.Waits sender receiver data) := by
  unfold Waits deliver
  by_cases same : sender = source ∧ receiver = target
  · obtain ⟨rfl, rfl⟩ := same
    simp
  · simp [same]

theorem waits_discard {source target : Nat} :
    (shared.discard source target).Waits sender receiver data ↔
      shared.Waits sender receiver data ∧ ¬(sender = source ∧ receiver = target) := by
  unfold Waits discard
  simp

def post (shared : Shared α) (sender : Nat) (packed : List (Nat × Array α)) : Shared α :=
  packed.foldl (fun shared parcel => shared.deliver sender parcel.1 parcel.2) shared

theorem slots_post (shared : Shared α) (sender : Nat) (packed : List (Nat × Array α)) :
    (shared.post sender packed).slots = shared.slots := by
  induction packed generalizing shared with
  | nil => rfl
  | cons parcel rest ih => exact ih _

theorem waits_post {source : Nat} {packed : List (Nat × Array α)}
    (distinct : (packed.map Prod.fst).Nodup) :
    (shared.post source packed).Waits sender receiver data ↔
      (sender = source ∧ (receiver, data) ∈ packed) ∨
        (¬(sender = source ∧ receiver ∈ packed.map Prod.fst) ∧
          shared.Waits sender receiver data) := by
  induction packed generalizing shared with
  | nil => simp [post]
  | cons parcel rest ih =>
      obtain ⟨target, sent⟩ := parcel
      obtain ⟨fresh, distinctRest⟩ := List.nodup_cons.mp distinct
      have later : (shared.post source ((target, sent) :: rest)).Waits sender receiver data ↔
          ((shared.deliver source target sent).post source rest).Waits sender receiver data :=
        Iff.rfl
      rw [later, ih distinctRest, waits_deliver]
      by_cases own : sender = source
      · by_cases here : receiver = target
        · subst here
          -- no later parcel replaces this one
          have absent : ∀ data, (receiver, data) ∉ rest := fun data member =>
            fresh (List.mem_map.mpr ⟨_, member, rfl⟩)
          simp [own, absent]
        · simp [own, here]
      · simp [own]

def filled (message : Nat → Array α) (neighbors : List Neighbor) (ghost : Array α) : Array α :=
  neighbors.foldl (fun ghost neighbor =>
    Storage.overwrite ghost neighbor.start (message neighbor.rank).toList) ghost

section Filled

variable {message : Nat → Array α} {neighbors : List Neighbor} {ghost : Array α}

@[simp] theorem size_filled (message : Nat → Array α) (neighbors : List Neighbor)
    (ghost : Array α) : (filled message neighbors ghost).size = ghost.size := by
  induction neighbors generalizing ghost with
  | nil => rfl
  | cons neighbor rest ih => exact (ih _).trans (Storage.size_overwrite ..)

theorem getElem?_filled_outside
    (sizes : ∀ neighbor ∈ neighbors, (message neighbor.rank).size = neighbor.count) {index : Nat}
    (outside : ∀ neighbor ∈ neighbors, ¬ neighbor.Covers index) :
    (filled message neighbors ghost)[index]? = ghost[index]? := by
  induction neighbors generalizing ghost with
  | nil => rfl
  | cons neighbor rest ih =>
      have here := outside neighbor List.mem_cons_self
      have size := sizes neighbor List.mem_cons_self
      refine (ih (fun other member => sizes other (List.mem_cons_of_mem _ member))
        (fun other member => outside other (List.mem_cons_of_mem _ member))).trans ?_
      apply Storage.getElem?_overwrite_outside
      rw [Array.length_toList, size]
      unfold Neighbor.Covers Neighbor.stop at here
      omega

theorem getElem?_filled_inside
    (sizes : ∀ neighbor ∈ neighbors, (message neighbor.rank).size = neighbor.count)
    (inside : ∀ neighbor ∈ neighbors, neighbor.stop ≤ ghost.size)
    (apart : neighbors.Pairwise fun a b => ∀ index, a.Covers index → ¬ b.Covers index)
    {neighbor : Neighbor} (listed : neighbor ∈ neighbors) {k : Nat} (bound : k < neighbor.count) :
    (filled message neighbors ghost)[neighbor.start + k]? = (message neighbor.rank)[k]? := by
  induction neighbors generalizing ghost with
  | nil => cases listed
  | cons first rest ih =>
      obtain ⟨headApart, restApart⟩ := List.pairwise_cons.mp apart
      have restSizes : ∀ other ∈ rest, (message other.rank).size = other.count :=
        fun other member => sizes other (List.mem_cons_of_mem _ member)
      rcases List.mem_cons.mp listed with same | later
      · subst same
        have size := sizes neighbor List.mem_cons_self
        have fits := inside neighbor List.mem_cons_self
        have covers : neighbor.Covers (neighbor.start + k) := by
          unfold Neighbor.Covers Neighbor.stop
          omega
        -- no later message overwrites this one
        refine (getElem?_filled_outside restSizes
          (fun other member => headApart other member _ covers)).trans ?_
        unfold Neighbor.stop at fits
        rw [Storage.getElem?_overwrite_inside _ _ _ (by simpa [size] using bound)
          (by simpa [size] using fits), Array.getElem?_toList]
      · exact ih restSizes
          (fun other member => by
            simpa using inside other (List.mem_cons_of_mem _ member)) restApart later

end Filled

theorem collect_filled {rank : Nat} {message : Nat → Array α} {neighbors : List Neighbor}
    {ghost : Array α} (distinct : (neighbors.map Neighbor.rank).Nodup)
    (waits : ∀ neighbor ∈ neighbors, shared.Waits neighbor.rank rank (message neighbor.rank))
    (only : ∀ neighbor ∈ neighbors, ∀ other, shared.Waits neighbor.rank rank other →
      other = message neighbor.rank)
    (sizes : ∀ neighbor ∈ neighbors, (message neighbor.rank).size = neighbor.count)
    (inside : ∀ neighbor ∈ neighbors, neighbor.stop ≤ ghost.size) :
    ∃ after, shared.collect rank neighbors ghost =
        ((.ok (), filled message neighbors ghost), after) ∧
      after.slots = shared.slots ∧
      ∀ sender receiver data, after.Waits sender receiver data ↔
        shared.Waits sender receiver data ∧
          ¬(receiver = rank ∧ sender ∈ neighbors.map Neighbor.rank) := by
  induction neighbors generalizing ghost shared with
  | nil => exact ⟨shared, rfl, rfl, by simp⟩
  | cons neighbor rest ih =>
      obtain ⟨fresh, distinctRest⟩ := List.nodup_cons.mp distinct
      have found : shared.message? neighbor.rank rank = some (message neighbor.rank) :=
        message_of_only (waits neighbor List.mem_cons_self) (only neighbor List.mem_cons_self)
      have stored : neighbor.store ghost (message neighbor.rank) =
          .ok (Storage.overwrite ghost neighbor.start (message neighbor.rank).toList) := by
        have fits := inside neighbor List.mem_cons_self
        unfold Neighbor.stop at fits
        simp only [Neighbor.store, Storage.copyInto, sizes neighbor List.mem_cons_self, if_true]
        rw [if_neg (by omega)]
      -- the messages still to collect come from other senders
      have other : ∀ later ∈ rest, later.rank ≠ neighbor.rank := fun later member same =>
        fresh (same ▸ List.mem_map_of_mem member)
      obtain ⟨after, ran, slots, left⟩ := @ih (shared.discard neighbor.rank rank)
        (Storage.overwrite ghost neighbor.start (message neighbor.rank).toList) distinctRest
        (fun later member => waits_discard.mpr
          ⟨waits later (List.mem_cons_of_mem _ member), fun same => other later member same.1⟩)
        (fun later member data waiting => only later (List.mem_cons_of_mem _ member) data
          (waits_discard.mp waiting).1)
        (fun later member => sizes later (List.mem_cons_of_mem _ member))
        (fun later member => by
          simpa using inside later (List.mem_cons_of_mem _ member))
      refine ⟨after, ?_, slots, ?_⟩
      · simp only [collect, found, stored, ran]
        rfl
      · intro sender receiver data
        rw [left, waits_discard, List.map_cons, List.mem_cons]
        tauto

end Shared
end Relaxation

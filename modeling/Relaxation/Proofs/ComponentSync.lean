import Relaxation.Proofs.ChainRows
import Relaxation.Proofs.HaloExpansion
import Relaxation.Proofs.Interleaving

/-!
A sync of whole blocks does to each component what a sync of single values does. Taking one
component of every block goes through each stage of an exchange, from what a rank packs for its
neighbors to where it stores what comes in.
-/

namespace Relaxation

variable {α : Type} {blockSize : Nat}

def component (k : Fin blockSize) (values : Array α) : Array α :=
  Array.ofFn fun row : Fin (values.size / blockSize) =>
    have inside : row * blockSize + k < values.size := by
      have fits := Kernel.row_end_le blockSize row.isLt
      have whole := Nat.div_mul_le_self values.size blockSize
      omega
    values[row * blockSize + k]

section Component

variable (k : Fin blockSize) {values : Array α} {rows : Nat}

theorem component_lt_iff {row : Nat} : row * blockSize + k < rows * blockSize ↔ row < rows := by
  rw [← Nat.div_lt_iff_lt_mul (Nat.zero_lt_of_lt k.isLt), (position_split row k.isLt).1]

theorem le_component_iff {row : Nat} : rows * blockSize ≤ row * blockSize + k ↔ rows ≤ row := by
  rw [← Nat.not_lt, component_lt_iff, Nat.not_lt]

theorem size_component (whole : values.size = rows * blockSize) :
    (component k values).size = rows := by
  rw [component, Array.size_ofFn, whole, Nat.mul_div_cancel _ (Nat.zero_lt_of_lt k.isLt)]

theorem getElem?_component (whole : values.size = rows * blockSize) (row : Nat) :
    (component k values)[row]? = values[row * blockSize + k]? := by
  by_cases inside : row < rows
  · have listed : row < (component k values).size := by rwa [size_component k whole]
    have held : row * blockSize + k < values.size := by rwa [whole, component_lt_iff]
    rw [Array.getElem?_eq_getElem listed, Array.getElem?_eq_getElem held]
    simp [component]
  · rw [Array.getElem?_eq_none (by rw [size_component k whole]; omega),
      Array.getElem?_eq_none (by rw [whole, le_component_iff]; omega)]

theorem component_append {front back : Array α} {rows rows' : Nat}
    (whole : front.size = rows * blockSize) (whole' : back.size = rows' * blockSize) :
    component k (front ++ back) = component k front ++ component k back := by
  have both : (front ++ back).size = (rows + rows') * blockSize := by
    rw [Array.size_append, whole, whole', Nat.add_mul]
  apply Array.ext_getElem?
  intro row
  rw [getElem?_component k both, Array.getElem?_append, Array.getElem?_append,
    size_component k whole, whole, getElem?_component k whole, getElem?_component k whole']
  by_cases inFront : row < rows
  · rw [if_pos inFront, if_pos ((component_lt_iff k).mpr inFront)]
  · rw [if_neg inFront, if_neg (mt (component_lt_iff k).mp inFront), Nat.sub_mul,
      Nat.sub_add_comm (Nat.mul_le_mul_right _ (Nat.not_lt.mp inFront))]

theorem component_extract (first : Nat) {last : Nat} (whole : values.size = rows * blockSize)
    (inside : last ≤ rows) :
    component k (values.extract (first * blockSize) (last * blockSize)) =
      (component k values).extract first last := by
  have fits := Nat.mul_le_mul_right blockSize inside
  have cut : (values.extract (first * blockSize) (last * blockSize)).size =
      (last - first) * blockSize := by
    rw [Array.size_extract, whole, Nat.min_eq_left fits, Nat.sub_mul]
  apply Array.ext_getElem?
  intro row
  rw [getElem?_component k cut, Array.getElem?_extract, Array.getElem?_extract,
    size_component k whole, whole, Nat.min_eq_left fits, Nat.min_eq_left inside, ← Nat.sub_mul,
    getElem?_component k whole, Nat.add_mul, Nat.add_assoc]
  by_cases within : row < last - first
  · rw [if_pos within, if_pos ((component_lt_iff k).mpr within)]
  · rw [if_neg within, if_neg (mt (component_lt_iff k).mp within)]

theorem component_overwrite {ghost data : Array α} {start count : Nat}
    (whole : ghost.size = rows * blockSize) (whole' : data.size = count * blockSize) :
    component k (Storage.overwrite ghost (start * blockSize) data.toList) =
      Storage.overwrite (component k ghost) start (component k data).toList := by
  have size := (Storage.size_overwrite ghost (start * blockSize) data.toList).trans whole
  apply Array.ext_getElem?
  intro row
  rw [getElem?_component k size, Storage.getElem?_overwrite, Storage.getElem?_overwrite,
    Array.length_toList, Array.length_toList, size_component k whole, size_component k whole',
    whole, whole', Array.getElem?_toList, Array.getElem?_toList, getElem?_component k whole,
    getElem?_component k whole', ← Nat.add_mul]
  simp only [le_component_iff, component_lt_iff]
  by_cases filled : start ≤ row ∧ row < start + count ∧ row < rows
  · rw [if_pos filled, if_pos filled, Nat.sub_mul,
      Nat.sub_add_comm (Nat.mul_le_mul_right _ filled.1)]
  · rw [if_neg filled, if_neg filled]

theorem getElem?_flatMap_components (listed : List Nat) (place : Nat) :
    (listed.flatMap (components blockSize))[place * blockSize + k]? =
      listed[place]?.map fun row => row * blockSize + k := by
  induction listed generalizing place with
  | nil => rfl
  | cons row rest ih =>
      rw [List.flatMap_cons, List.getElem?_append, length_components]
      cases place with
      | zero =>
          rw [Nat.zero_mul, Nat.zero_add, if_pos k.isLt]
          simp [components]
      | succ place =>
          rw [Nat.succ_mul, if_neg (by omega), List.getElem?_cons_succ, ← ih]
          congr 1
          omega

theorem component_packed {neighbor : Neighbor} {owned : Array α}
    (whole : owned.size = rows * blockSize) (inside : ∀ row ∈ neighbor.sent, row < rows) :
    component k ((neighbor.expand blockSize).packed owned) =
      neighbor.packed (component k owned) := by
  have blocks : ∀ index ∈ (neighbor.expand blockSize).sent, index < owned.size := by
    intro index sent
    obtain ⟨row, listed, _, before⟩ := Neighbor.mem_sent_expand.mp sent
    exact whole ▸ before.trans_le (Kernel.row_end_le blockSize (inside row listed))
  have own : ∀ row ∈ neighbor.sent, row < (component k owned).size := by
    rwa [size_component k whole]
  have size : ((neighbor.expand blockSize).packed owned).size =
      neighbor.sent.length * blockSize := by
    rw [Neighbor.size_packed blocks, Neighbor.length_sent_expand]
  apply Array.ext_getElem?
  intro place
  rw [getElem?_component k size, Neighbor.getElem?_packed blocks, Neighbor.getElem?_packed own]
  unfold Neighbor.expand
  dsimp only
  rw [getElem?_flatMap_components]
  cases neighbor.sent[place]? with
  | none => rfl
  | some row => exact (getElem?_component k whole row).symm

theorem component_filled {message : Nat → Array α} {neighbors : List Neighbor} {ghost : Array α}
    (whole : ghost.size = rows * blockSize)
    (sizes : ∀ neighbor ∈ neighbors, (message neighbor.rank).size = neighbor.count * blockSize) :
    component k (Shared.filled message
        (neighbors.map fun neighbor => neighbor.expand blockSize) ghost) =
      Shared.filled (fun sender => component k (message sender)) neighbors
        (component k ghost) := by
  induction neighbors generalizing ghost with
  | nil => rfl
  | cons neighbor rest ih =>
      have size := sizes neighbor List.mem_cons_self
      refine (ih ((Storage.size_overwrite ..).trans whole) fun other listed =>
        sizes other (List.mem_cons_of_mem _ listed)).trans ?_
      exact congrArg (Shared.filled _ rest) (component_overwrite k whole size)

end Component

/-- What a rank brings to a sync: its neighbors and the shape of its vector in block rows, and the
values of the vector. -/
structure Holding (α : Type) where
  neighbors : List Neighbor
  rows : Nat
  columns : Nat
  values : Array α

namespace Holding

def component (k : Fin blockSize) (holding : Holding α) : Holding α :=
  { holding with values := Relaxation.component k holding.values }

def sync (holding : Holding α) (blockSize rank ranks : Nat) : Collective α (Exchanged α) :=
  match Halo.ofBlockRowsChecked (.member rank ranks) holding.neighbors blockSize with
  | .error fault => .done (.error fault, holding.values)
  | .ok halo => halo.sync holding.values holding.rows

def syncAll (blockSize : Nat) (holdings : List (Holding α)) : List (Collective α (Exchanged α)) :=
  holdings.mapIdx fun rank holding => holding.sync blockSize rank holdings.length

/-- A rank whose neighbors have it as theirs: it owns what it sends, has room for what it gets, and
gets as many rows as are sent to it. The length of its vector is a word. -/
structure Linked (blockSize : Nat) (holdings : List (Holding α)) (rank : Nat)
    (holding : Holding α) : Prop where
  whole : holding.values.size = holding.columns * blockSize
  numbered : holding.values.size < Word.limit
  covers : holding.rows ≤ holding.columns
  distinct : (holding.neighbors.map Neighbor.rank).Nodup
  sent : ∀ neighbor ∈ holding.neighbors, ∀ row ∈ neighbor.sent, row < holding.rows
  inside : ∀ neighbor ∈ holding.neighbors, neighbor.stop ≤ holding.columns - holding.rows
  answered : ∀ neighbor ∈ holding.neighbors, ∃ other, holdings[neighbor.rank]? = some other ∧
    ∃ their ∈ other.neighbors, their.rank = rank ∧ their.sent.length = neighbor.count

def Matched (blockSize : Nat) (holdings : List (Holding α)) : Prop :=
  ∀ rank holding, holdings[rank]? = some holding → Linked blockSize holdings rank holding

def owned (holding : Holding α) (blockSize : Nat) : Array α :=
  holding.values.extract 0 (holding.rows * blockSize)

def ghost (holding : Holding α) (blockSize : Nat) : Array α :=
  holding.values.extract (holding.rows * blockSize) holding.values.size

def call (holding : Holding α) (blockSize : Nat) : Collective α (Exchanged α) :=
  .exchange (holding.neighbors.map fun neighbor => neighbor.expand blockSize)
    (holding.owned blockSize) (holding.ghost blockSize) fun answer =>
      .done (answer.1, holding.owned blockSize ++ answer.2)

section Linked

variable {holdings : List (Holding α)} {rank : Nat} {holding : Holding α}

theorem Linked.size_owned (linked : Linked blockSize holdings rank holding) :
    (holding.owned blockSize).size = holding.rows * blockSize := by
  have fits := Nat.mul_le_mul_right blockSize linked.covers
  rw [owned, Array.size_extract, linked.whole, Nat.min_eq_left fits, Nat.sub_zero]

theorem Linked.size_ghost (linked : Linked blockSize holdings rank holding) :
    (holding.ghost blockSize).size = (holding.columns - holding.rows) * blockSize := by
  rw [ghost, Array.size_extract, Nat.min_self, linked.whole, Nat.sub_mul]

theorem Linked.addressed (linked : Linked blockSize holdings rank holding) :
    ∀ neighbor ∈ holding.neighbors, neighbor.Addressed blockSize := by
  intro neighbor listed
  have held := linked.whole ▸ linked.numbered
  have covers := linked.covers
  refine ⟨fun row sent => ?_, ?_⟩
  · have inside := (linked.sent neighbor listed row sent).trans_le covers
    exact (Kernel.row_end_le blockSize inside).trans held.le
  · have inside := (linked.inside neighbor listed).trans (Nat.sub_le ..)
    exact (Nat.mul_le_mul_right blockSize inside).trans_lt held

theorem Linked.sync_eq (positive : 0 < blockSize) (linked : Linked blockSize holdings rank holding)
    (ranks : Nat) : holding.sync blockSize rank ranks = holding.call blockSize := by
  unfold sync
  rw [checked_of_addressed positive linked.addressed]
  exact Halo.sync_member rfl (linked.whole ▸ Nat.mul_le_mul_right blockSize linked.covers)

theorem Linked.component (k : Fin blockSize) (linked : Linked blockSize holdings rank holding) :
    Linked 1 (holdings.map (Holding.component k)) rank (holding.component k) where
  whole := (size_component k linked.whole).trans (Nat.mul_one _).symm
  numbered := by
    have rows : holding.columns ≤ holding.columns * blockSize :=
      Nat.le_mul_of_pos_right _ (Nat.zero_lt_of_lt k.isLt)
    change (Relaxation.component k holding.values).size < Word.limit
    rw [size_component k linked.whole]
    exact (linked.whole ▸ rows).trans_lt linked.numbered
  covers := linked.covers
  distinct := linked.distinct
  sent := linked.sent
  inside := linked.inside
  answered := by
    intro neighbor listed
    obtain ⟨other, found, their⟩ := linked.answered neighbor listed
    exact ⟨other.component k, by rw [List.getElem?_map, found]; rfl, their⟩

theorem Matched.component (k : Fin blockSize) (matched : Matched blockSize holdings) :
    Matched 1 (holdings.map (Holding.component k)) := by
  intro rank holding found
  rw [List.getElem?_map] at found
  obtain ⟨whole, listed, rfl⟩ := Option.map_eq_some_iff.mp found
  exact (matched rank whole listed).component k

theorem getElem?_sync_all (blockSize : Nat) (holdings : List (Holding α)) (rank : Nat) :
    (syncAll blockSize holdings)[rank]? =
      holdings[rank]?.map fun holding => holding.sync blockSize rank holdings.length :=
  List.getElem?_mapIdx

theorem Matched.called (positive : 0 < blockSize) (matched : Matched blockSize holdings)
    (found : holdings[rank]? = some holding) :
    (syncAll blockSize holdings)[rank]? = some (holding.call blockSize) := by
  rw [getElem?_sync_all, found, Option.map_some, (matched rank holding found).sync_eq positive]

theorem Matched.met (positive : 0 < blockSize) (matched : Matched blockSize holdings) :
    Group.Met (syncAll blockSize holdings) := by
  intro rank program found
  rw [getElem?_sync_all] at found
  obtain ⟨holding, listed, rfl⟩ := Option.map_eq_some_iff.mp found
  have linked := matched rank holding listed
  refine ⟨_, _, _, _, linked.sync_eq positive _, ?_, ?_, ?_, ?_⟩
  · rw [List.map_map]
    exact linked.distinct
  · intro expanded member index sent
    obtain ⟨neighbor, given, rfl⟩ := List.mem_map.mp member
    obtain ⟨row, own, _, before⟩ := Neighbor.mem_sent_expand.mp sent
    rw [linked.size_owned]
    exact before.trans_le (Kernel.row_end_le blockSize (linked.sent neighbor given row own))
  · intro expanded member
    obtain ⟨neighbor, given, rfl⟩ := List.mem_map.mp member
    rw [linked.size_ghost, Neighbor.stop_expand]
    exact Nat.mul_le_mul_right _ (linked.inside neighbor given)
  · intro expanded member
    obtain ⟨neighbor, given, rfl⟩ := List.mem_map.mp member
    obtain ⟨other, found, their, back, own, length⟩ := linked.answered neighbor given
    refine ⟨_, _, _, _, matched.called positive found, their.expand blockSize,
      List.mem_map_of_mem back, own, ?_⟩
    rw [Neighbor.length_sent_expand, length]
    rfl

end Linked

/-- What a rank has behind a sync: its own values, and in its ghost values what came in. -/
def synced (holding : Holding α) (blockSize : Nat) (holdings : List (Holding α)) (rank : Nat) :
    Array α :=
  holding.owned blockSize ++ Shared.filled (Group.incoming (syncAll blockSize holdings) rank)
    (holding.neighbors.map fun neighbor => neighbor.expand blockSize) (holding.ghost blockSize)

def syncedAll (blockSize : Nat) (holdings : List (Holding α)) : List (Array α) :=
  holdings.mapIdx fun rank holding => holding.synced blockSize holdings rank

section Synced

variable (k : Fin blockSize) {holdings : List (Holding α)} {rank : Nat} {holding : Holding α}

theorem Linked.owned_component (linked : Linked blockSize holdings rank holding) :
    (holding.component k).owned 1 = Relaxation.component k (holding.owned blockSize) := by
  have cut := component_extract k 0 linked.whole linked.covers
  rw [Nat.zero_mul] at cut
  rw [owned, owned, cut, Nat.mul_one]
  rfl

theorem Linked.ghost_component (linked : Linked blockSize holdings rank holding) :
    (holding.component k).ghost 1 = Relaxation.component k (holding.ghost blockSize) := by
  have size : (holding.component k).values.size = holding.columns := size_component k linked.whole
  rw [ghost, ghost, size, linked.whole, component_extract k _ linked.whole le_rfl, Nat.mul_one]
  rfl

theorem incoming_component (matched : Matched blockSize holdings) (receiver sender : Nat) :
    Group.incoming (syncAll 1 (holdings.map (component k))) receiver sender =
      Relaxation.component k (Group.incoming (syncAll blockSize holdings) receiver sender) := by
  have nothing : Relaxation.component k (#[] : Array α) = #[] :=
    Array.eq_empty_of_size_eq_zero (size_component k (Nat.zero_mul blockSize).symm)
  unfold Group.incoming
  rw [getElem?_sync_all, getElem?_sync_all, List.getElem?_map]
  cases found : holdings[sender]? with
  | none => exact nothing.symm
  | some other =>
      have linked := matched sender other found
      simp only [Option.map_some, Option.bind_some]
      rw [linked.sync_eq (Nat.zero_lt_of_lt k.isLt), (linked.component k).sync_eq Nat.one_pos]
      simp only [call, Group.outgoing, List.find?_map, Option.map_map]
      -- to expand a neighbor leaves its rank
      change (Option.map _ (other.neighbors.find? fun neighbor => neighbor.rank == receiver)).getD
        _ = Relaxation.component k ((Option.map _
          (other.neighbors.find? fun neighbor => neighbor.rank == receiver)).getD _)
      cases listed : other.neighbors.find? fun neighbor => neighbor.rank == receiver with
      | none => exact nothing.symm
      | some neighbor =>
          have inside := linked.sent neighbor (List.mem_of_find?_eq_some listed)
          have packed := component_packed k linked.size_owned inside
          simp only [Option.map_some, Option.getD_some, Function.comp_apply]
          rw [packed, Model.expand_one, linked.owned_component k]

theorem component_synced (matched : Matched blockSize holdings)
    (found : holdings[rank]? = some holding) :
    (holding.component k).synced 1 (holdings.map (component k)) rank =
      Relaxation.component k (holding.synced blockSize holdings rank) := by
  have linked := matched rank holding found
  have positive := Nat.zero_lt_of_lt k.isLt
  have sizes : ∀ neighbor ∈ holding.neighbors,
      (Group.incoming (syncAll blockSize holdings) rank neighbor.rank).size =
        neighbor.count * blockSize := fun neighbor given =>
    (matched.met positive).size_incoming (matched.called positive found) _
      (List.mem_map_of_mem given)
  have size := (Shared.size_filled (Group.incoming (syncAll blockSize holdings) rank)
    (holding.neighbors.map fun neighbor => neighbor.expand blockSize) _).trans linked.size_ghost
  unfold synced
  rw [component_append k linked.size_owned size, component_filled k linked.size_ghost sizes,
    linked.owned_component k, linked.ghost_component k]
  change _ ++ Shared.filled _ (holding.neighbors.map fun neighbor => neighbor.expand 1) _ = _
  rw [Model.map_expand_one, funext (incoming_component k matched rank)]

theorem synced_all_component (matched : Matched blockSize holdings) :
    syncedAll 1 (holdings.map (component k)) =
      (syncedAll blockSize holdings).map (Relaxation.component k) := by
  apply List.ext_getElem?
  intro rank
  unfold syncedAll
  rw [List.getElem?_map, List.getElem?_mapIdx, List.getElem?_mapIdx, List.getElem?_map]
  cases found : holdings[rank]? with
  | none => rfl
  | some holding => exact congrArg some (component_synced k matched found)

end Synced

section Runs

variable [Arithmetic α] {holdings : List (Holding α)}

theorem Matched.after_sync (positive : 0 < blockSize) (matched : Matched blockSize holdings) :
    Group.after (syncAll blockSize holdings) 1 =
      (syncedAll blockSize holdings).map fun values => .done (.ok (), values) := by
  apply List.ext_getElem?
  intro rank
  rw [Group.getElem?_after_succ, Group.after, getElem?_sync_all, List.getElem?_map]
  unfold syncedAll
  rw [List.getElem?_mapIdx]
  cases found : holdings[rank]? with
  | none => rfl
  | some holding =>
      simp only [Option.map_some]
      rw [(matched rank holding found).sync_eq positive]
      rfl

end Runs
end Holding

namespace Group

variable {β : Type} [Arithmetic α] {programs : List (Collective α β)} {results : List β}

/-- In every order of the steps of its ranks a group comes to an end, and each rank to its
result. -/
structure Delivers (programs : List (Collective α β)) (results : List β) : Prop where
  size : ∀ {state}, Steps (start programs) state → state.members.length = results.length
  answers : ∀ {state}, Steps (start programs) state → ∀ {rank passed : Nat} {result : β},
    state.members[rank]? = some ⟨.done result, passed⟩ → results[rank]? = some result
  moves : ∀ {state}, Steps (start programs) state →
    (∀ member ∈ state.members, ∃ result, member.thread = .done result) ∨
      ∃ next, Step state next
  ends : ∀ {state}, Steps (start programs) state →
    Acc (fun later earlier => Step earlier later) state

theorem Met.delivers (met : Met programs)
    (behind : after programs 1 = results.map .done) : Delivers programs results := by
  have finished : Ended (after programs 1) := by
    intro program member
    rw [behind] at member
    obtain ⟨result, _, rfl⟩ := List.mem_map.mp member
    exact ⟨result, rfl⟩
  have joined : Joined programs := by
    intro rounds
    match rounds with
    | 0 => exact .exchange met
    | rounds + 1 =>
        rw [Nat.add_comm, ← after_after, finished.after_eq]
        exact .ended finished
  refine ⟨fun reached => ?_, fun reached => ?_, ended_or_moves joined, fun reached => ?_⟩
  · obtain ⟨position, placed⟩ := placed_of_reached joined reached
    rw [placed.size, ← length_after programs 1, behind, List.length_map]
  · intro rank passed result found
    obtain ⟨rounds, finished', listed⟩ := done_in_round joined reached found
    rw [finished'.unique finished, behind, List.getElem?_map] at listed
    obtain ⟨result', here, same⟩ := Option.map_eq_some_iff.mp listed
    cases same
    exact here
  · obtain ⟨position, placed⟩ := placed_of_reached joined reached
    exact placed_terminates joined placed

end Group

namespace Holding

variable [Arithmetic α] {holdings : List (Holding α)}

theorem Matched.delivers (positive : 0 < blockSize) (matched : Matched blockSize holdings) :
    Group.Delivers (syncAll blockSize holdings)
      ((syncedAll blockSize holdings).map fun values => (.ok (), values)) := by
  apply (matched.met positive).delivers
  rw [matched.after_sync positive, List.map_map]
  rfl

end Holding

/-- A halo of block rows whose components words can number moves their blocks and nothing else:
what it gathers, where it stores and the limits it knows are those of the rows. Of other rows no
halo is made, or one with a range that ends behind all words. So in a group whose neighbors match,
in whatever order its ranks take their steps, a sync does to each component what a sync of it alone
does. -/
theorem halo_moves_whole_blocks [Arithmetic α] (positive : 0 < blockSize) :
    (∀ communicator neighbors, (∀ neighbor ∈ neighbors, neighbor.Addressed blockSize) →
      ∃ halo, Halo.ofBlockRowsChecked communicator neighbors blockSize = .ok halo ∧
        halo.Expands neighbors blockSize ∧
        ∀ expanded ∈ halo.neighbors, expanded.stopChecked = .ok expanded.stop) ∧
    (∀ communicator neighbors, (¬∀ neighbor ∈ neighbors, neighbor.Addressed blockSize) →
      Halo.ofBlockRowsChecked communicator neighbors blockSize = .error .overflow ∨
        ∃ halo, Halo.ofBlockRowsChecked communicator neighbors blockSize = .ok halo ∧
          ∃ expanded ∈ halo.neighbors, expanded.stopChecked = .error .overflow) ∧
    ∀ holdings : List (Holding α), Holding.Matched blockSize holdings →
      Group.Delivers (Holding.syncAll blockSize holdings)
        ((Holding.syncedAll blockSize holdings).map fun values => (.ok (), values)) ∧
      ∀ k : Fin blockSize,
        Group.Delivers (Holding.syncAll 1 (holdings.map (Holding.component k)))
          ((Holding.syncedAll blockSize holdings).map fun values => (.ok (), component k values)) := by
  refine ⟨fun communicator neighbors addressed => ?_,
    fun communicator neighbors => checked_of_not_addressed positive,
    fun holdings matched => ⟨matched.delivers positive, fun k => ?_⟩⟩
  · refine ⟨_, checked_of_addressed positive addressed,
      Halo.expands_block_rows communicator neighbors positive, fun expanded member => ?_⟩
    obtain ⟨neighbor, listed, rfl⟩ := List.mem_map.mp member
    refine Word.within_of ?_
    change (neighbor.expand blockSize).stop < Word.limit
    rw [Neighbor.stop_expand]
    exact (addressed neighbor listed).received
  · have alone := (matched.component k).delivers Nat.one_pos
    rw [Holding.synced_all_component k matched, List.map_map] at alone
    exact alone

/-- Two rows on one rank and one on the other, which gets both of the first, the later one first. -/
def twoAndOneRow : List (Holding ℚ) :=
  [⟨[⟨1, [1, 0], 0, 1⟩], 2, 3, #[1, 2, 3, 4, 0, 0]⟩,
    ⟨[⟨0, [0], 0, 2⟩], 1, 3, #[5, 6, 0, 0, 0, 0]⟩]

theorem two_and_one_row_matched : Holding.Matched 2 twoAndOneRow := by
  intro rank holding found
  match rank with
  | 0 =>
      cases found
      exact ⟨rfl, by decide, by decide, by decide, by decide, by decide, by simp [twoAndOneRow]⟩
  | 1 =>
      cases found
      exact ⟨rfl, by decide, by decide, by decide, by decide, by decide, by simp [twoAndOneRow]⟩
  | rank + 2 => cases found

theorem two_and_one_row_synced :
    Holding.syncedAll 2 twoAndOneRow = [#[1, 2, 3, 4, 5, 6], #[5, 6, 3, 4, 1, 2]] ∧
      Group.Delivers (Holding.syncAll 2 twoAndOneRow)
        [(.ok (), #[1, 2, 3, 4, 5, 6]), (.ok (), #[5, 6, 3, 4, 1, 2])] ∧
      Group.Delivers (Holding.syncAll 1 (twoAndOneRow.map (Holding.component (1 : Fin 2))))
        [(.ok (), #[2, 4, 6]), (.ok (), #[6, 4, 2])] := by
  have vectors : Holding.syncedAll 2 twoAndOneRow = [#[1, 2, 3, 4, 5, 6], #[5, 6, 3, 4, 1, 2]] := by
    cbv
  obtain ⟨blocks, alone⟩ := (halo_moves_whole_blocks Nat.two_pos).2.2 _ two_and_one_row_matched
  have second := alone 1
  rw [vectors] at blocks second
  exact ⟨vectors, blocks, second⟩

/-- The components of this row are the first two that no word can number. -/
theorem row_beyond_words_faults :
    Halo.ofBlockRowsChecked .alone [⟨0, [2 ^ 63], 0, 0⟩] 2 = .error .overflow :=
  rfl

end Relaxation

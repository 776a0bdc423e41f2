import Relaxation.Proofs.HaloFrame
import Relaxation.Proofs.Word

/-!
From block rows to components. A neighbor's rows and its range of ghost rows are both replaced by
their components, one by one in the sender and as a whole in the receiver, and the limits of a halo
are read off what has been replaced. This is what the rows become as long as words can number their
components, and otherwise a fault.
-/

namespace Relaxation

variable {α : Type}

theorem components_eq (blockSize row : Nat) :
    components blockSize row = List.range' (row * blockSize) blockSize := by
  unfold components
  rw [List.range'_eq_map_range]

theorem mem_components {blockSize row index : Nat} : index ∈ components blockSize row ↔
    row * blockSize ≤ index ∧ index < row * blockSize + blockSize := by
  rw [components_eq, List.mem_range'_1]

theorem length_components (blockSize row : Nat) :
    (components blockSize row).length = blockSize := by
  simp [components]

theorem flatMap_components_range' (start count blockSize : Nat) :
    (List.range' start count).flatMap (components blockSize) =
      List.range' (start * blockSize) (count * blockSize) := by
  induction count generalizing start with
  | zero => rw [Nat.zero_mul]; rfl
  | succ count ih =>
      rw [List.range'_succ, List.flatMap_cons, ih, components_eq, Nat.succ_mul, Nat.succ_mul,
        List.range'_append_1, Nat.add_comm]

def blockValues (values : Array α) (blockSize row : Nat) : List α :=
  (values.extract (row * blockSize) (row * blockSize + blockSize)).toList

theorem filterMap_range' (values : List α) (start count : Nat) :
    (List.range' start count).filterMap (fun index => values[index]?) =
      (values.drop start).take count := by
  induction count generalizing start with
  | zero => rfl
  | succ count ih =>
      rw [List.range'_succ]
      by_cases inside : start < values.length
      · rw [List.filterMap_cons_some (List.getElem?_eq_getElem inside), ih,
          List.drop_eq_getElem_cons inside, List.take_succ_cons]
      · have beyond : values.length ≤ start := Nat.not_lt.mp inside
        rw [List.filterMap_cons_none (List.getElem?_eq_none beyond), ih,
          List.drop_eq_nil_of_le beyond, List.drop_eq_nil_of_le (by omega), List.take_nil,
          List.take_nil]

namespace Neighbor

variable {neighbor : Neighbor} {blockSize : Nat}

theorem packed_expand (neighbor : Neighbor) (values : Array α) (blockSize : Nat) :
    (neighbor.expand blockSize).packed values =
      (neighbor.sent.flatMap (blockValues values blockSize)).toArray := by
  unfold packed expand
  dsimp only
  rw [List.filterMap_flatMap]
  congr 2
  funext row
  simp only [← Array.getElem?_toList]
  rw [components_eq, filterMap_range', blockValues, Array.toList_extract]
  simp [List.extract]

theorem mem_sent_expand {index : Nat} : index ∈ (neighbor.expand blockSize).sent ↔
    ∃ row ∈ neighbor.sent, row * blockSize ≤ index ∧ index < row * blockSize + blockSize := by
  unfold expand
  rw [List.mem_flatMap]
  exact exists_congr fun row => and_congr_right fun _ => mem_components

theorem length_sent_expand : (neighbor.expand blockSize).sent.length =
    neighbor.sent.length * blockSize := by
  unfold expand
  dsimp only
  rw [List.length_flatMap]
  simp [length_components]

theorem gather_of_missing {values : Array α}
    (missing : ∃ index ∈ neighbor.sent, values.size ≤ index) :
    neighbor.gather values = .error .outOfRange := by
  obtain ⟨index, listed, beyond⟩ := missing
  unfold gather
  cases fetched : neighbor.sent.mapM (Storage.fetch values) with
  | ok found =>
      obtain ⟨place, here⟩ := List.mem_iff_getElem?.mp listed
      obtain ⟨value, _, fetched⟩ := (mapM_ok fetched).2 place index here
      rw [Storage.fetch, Array.getElem?_eq_none beyond] at fetched
      cases fetched
  | error fault =>
      obtain ⟨other, _, failed⟩ := mapM_error fetched
      unfold Storage.fetch at failed
      split at failed
      · cases failed
      · cases failed
        rfl

theorem gather_expand (positive : 0 < blockSize) (values : Array α) :
    (neighbor.expand blockSize).gather values =
      if ∀ row ∈ neighbor.sent, row * blockSize + blockSize ≤ values.size then
        .ok (neighbor.sent.flatMap (blockValues values blockSize)).toArray
      else .error .outOfRange := by
  by_cases whole : ∀ row ∈ neighbor.sent, row * blockSize + blockSize ≤ values.size
  · rw [if_pos whole, gather_packed, packed_expand]
    intro index sent
    obtain ⟨row, listed, _, inside⟩ := mem_sent_expand.mp sent
    exact inside.trans_le (whole row listed)
  · rw [if_neg whole]
    obtain ⟨row, listed, cut⟩ := by simpa only [not_forall] using whole
    -- of a row that is cut off, the last component is missing
    refine gather_of_missing ⟨row * blockSize + (blockSize - 1), mem_sent_expand.mpr
      ⟨row, listed, ?_⟩, ?_⟩ <;> omega

end Neighbor

/-- What a neighbor becomes per component: it gets whole blocks, row by row in the order in which
they are listed, and fills the components of its ghost rows. -/
structure Neighbor.Widens (blockSize : Nat) (neighbor expanded : Neighbor) : Prop where
  rank : expanded.rank = neighbor.rank
  gathered : ∀ {α : Type} (values : Array α), expanded.gather values =
    if ∀ row ∈ neighbor.sent, row * blockSize + blockSize ≤ values.size then
      .ok (neighbor.sent.flatMap (blockValues values blockSize)).toArray
    else .error .outOfRange
  received : List.range' expanded.start expanded.count =
    (List.range' neighbor.start neighbor.count).flatMap fun row =>
      List.range' (row * blockSize) blockSize

namespace Halo

/-- A halo that has been made of block rows, and its limits in block rows. -/
structure Expands (halo : Halo) (neighbors : List Neighbor) (blockSize : Nat) : Prop where
  each : List.Forall₂ (Neighbor.Widens blockSize) neighbors halo.neighbors
  received : ∀ expanded ∈ halo.neighbors, expanded.stop ≤ halo.ghostRows * blockSize
  attained : neighbors ≠ [] →
    ∃ expanded ∈ halo.neighbors, expanded.stop = halo.ghostRows * blockSize
  sent : ∀ row, halo.maxSentRow = some row ↔
    (∃ neighbor ∈ neighbors, row ∈ neighbor.sent) ∧
      ∀ neighbor ∈ neighbors, ∀ other ∈ neighbor.sent, other ≤ row
  silent : halo.maxSentRow = none ↔ ∀ neighbor ∈ neighbors, neighbor.sent = []

variable {communicator : Communicator} {neighbors : List Neighbor} {blockSize : Nat}

theorem ghost_rows_attained (some : neighbors ≠ []) : ∃ neighbor ∈ neighbors,
    neighbor.stop = (ofBlockRows communicator neighbors blockSize).ghostRows := by
  change ∃ neighbor ∈ neighbors, neighbor.stop = (neighbors.map Neighbor.stop).foldl max 0
  rw [List.foldl_max]
  cases largest : (neighbors.map Neighbor.stop).max? with
  | none => exact absurd (List.map_eq_nil_iff.mp (List.max?_eq_none_iff.mp largest)) some
  | some greatest =>
      obtain ⟨neighbor, listed, same⟩ := List.mem_map.mp (List.max?_eq_some_iff.mp largest).1
      exact ⟨neighbor, listed, same.trans (Nat.zero_max greatest).symm⟩

theorem max?_components (positive : 0 < blockSize) (rows : List Nat) :
    (rows.flatMap (components blockSize)).max?.map (· / blockSize) = rows.max? := by
  cases largest : rows.max? with
  | none =>
      rw [List.max?_eq_none_iff.mp largest]
      rfl
  | some row =>
      obtain ⟨listed, most⟩ := List.max?_eq_some_iff.mp largest
      have last : blockSize - 1 < blockSize := by omega
      have found : (rows.flatMap (components blockSize)).max? =
          some (row * blockSize + (blockSize - 1)) := by
        apply List.max?_eq_some_iff.mpr
        refine ⟨List.mem_flatMap.mpr ⟨row, listed, mem_components.mpr (by omega)⟩, ?_⟩
        intro index member
        obtain ⟨other, given, inside⟩ := List.mem_flatMap.mp member
        have before := Nat.mul_le_mul_right blockSize (most other given)
        have bound := (mem_components.mp inside).2
        omega
      rw [found, Option.map_some, (position_split row last).1]

theorem max_sent_row_eq (positive : 0 < blockSize) :
    (ofBlockRows communicator neighbors blockSize).maxSentRow =
      (neighbors.flatMap Neighbor.sent).max? := by
  rw [← max?_components positive, List.flatMap_assoc]
  unfold maxSentRow ofBlockRows
  dsimp only
  rw [List.flatMap_map]
  rfl

theorem expands_block_rows (communicator : Communicator) (neighbors : List Neighbor)
    (positive : 0 < blockSize) :
    (ofBlockRows communicator neighbors blockSize).Expands neighbors blockSize where
  each := by
    change List.Forall₂ _ neighbors (neighbors.map fun neighbor => neighbor.expand blockSize)
    rw [List.forall₂_map_right_iff]
    apply List.forall₂_same.mpr
    intro neighbor _
    refine ⟨rfl, Neighbor.gather_expand positive, ?_⟩
    simp only [← components_eq]
    exact (flatMap_components_range' ..).symm
  received := stop_le_of_ghost_rows
  attained := by
    intro some
    obtain ⟨neighbor, listed, same⟩ := ghost_rows_attained some
    exact ⟨neighbor.expand blockSize, List.mem_map_of_mem listed,
      Neighbor.stop_expand.trans (congrArg (· * blockSize) same)⟩
  sent := by
    intro row
    rw [max_sent_row_eq positive, List.max?_eq_some_iff]
    simp only [List.mem_flatMap]
    exact and_congr_right fun _ => ⟨fun most neighbor listed other sent =>
      most other ⟨neighbor, listed, sent⟩, fun most other ⟨neighbor, listed, sent⟩ =>
      most neighbor listed other sent⟩
  silent := by
    rw [max_sent_row_eq positive, List.max?_eq_none_iff, List.flatMap_eq_nil_iff]

end Halo

/-- Words can number the components of every row that a neighbor lists or fills. -/
structure Neighbor.Addressed (blockSize : Nat) (neighbor : Neighbor) : Prop where
  sent : ∀ row ∈ neighbor.sent, row * blockSize + blockSize ≤ Word.limit
  received : neighbor.stop * blockSize < Word.limit

section Checked

variable {neighbor : Neighbor} {neighbors : List Neighbor} {communicator : Communicator}
  {blockSize : Nat} (positive : 0 < blockSize)

include positive

theorem components_checked_eq (row : Nat) : componentsChecked blockSize row =
    Word.within (row * blockSize + blockSize ≤ Word.limit) (components blockSize row) := by
  have each : (fun component => Word.mul row blockSize >>= fun base => Word.add base component) =
      fun component => Word.within
        (row * blockSize < Word.limit ∧ row * blockSize + component < Word.limit)
        (row * blockSize + component) := funext fun component => Word.within_bind _ rfl
  unfold componentsChecked
  rw [each, Word.mapM_within]
  refine Word.within_congr ⟨fun all => ?_, fun fits component inside => ?_⟩ rfl
  · have last := (all (blockSize - 1) (List.mem_range.mpr (by omega))).2
    omega
  · have before := List.mem_range.mp inside
    omega

theorem expand_checked_eq (neighbor : Neighbor) : neighbor.expandChecked blockSize =
    Word.within ((∀ row ∈ neighbor.sent, row * blockSize + blockSize ≤ Word.limit) ∧
        neighbor.start * blockSize < Word.limit ∧ neighbor.count * blockSize < Word.limit)
      (neighbor.expand blockSize) := by
  unfold Neighbor.expandChecked
  rw [funext (components_checked_eq positive), Word.mapM_within]
  refine Word.within_bind _ (Word.within_bind _ ?_)
  exact Word.within_map fun count => Neighbor.mk neighbor.rank
    (neighbor.sent.flatMap (components blockSize)) (neighbor.start * blockSize) count

theorem of_block_rows_checked_eq (communicator : Communicator) (neighbors : List Neighbor) :
    Halo.ofBlockRowsChecked communicator neighbors blockSize =
      Word.within ((∀ neighbor ∈ neighbors, neighbor.stop < Word.limit) ∧
          ∀ neighbor ∈ neighbors,
            (∀ row ∈ neighbor.sent, row * blockSize + blockSize ≤ Word.limit) ∧
              neighbor.start * blockSize < Word.limit ∧ neighbor.count * blockSize < Word.limit)
        (Halo.ofBlockRows communicator neighbors blockSize) := by
  have stops : Neighbor.stopChecked =
      fun neighbor => Word.within (neighbor.stop < Word.limit) neighbor.stop := rfl
  unfold Halo.ofBlockRowsChecked
  rw [stops, Word.mapM_within, funext (expand_checked_eq positive), Word.mapM_within]
  refine Word.within_bind _ ?_
  exact Word.within_map fun expanded => Halo.mk communicator expanded blockSize
    ((neighbors.map Neighbor.stop).foldl max 0)

theorem Neighbor.Addressed.bounds (addressed : neighbor.Addressed blockSize) :
    neighbor.stop < Word.limit ∧ neighbor.start * blockSize < Word.limit ∧
      neighbor.count * blockSize < Word.limit := by
  have received := addressed.received
  have first := Nat.mul_le_mul_right blockSize (Nat.le_add_right neighbor.start neighbor.count)
  have length := Nat.mul_le_mul_right blockSize (Nat.le_add_left neighbor.count neighbor.start)
  have rows := Nat.le_mul_of_pos_right neighbor.stop positive
  exact ⟨rows.trans_lt received, first.trans_lt received, length.trans_lt received⟩

theorem checked_of_addressed (addressed : ∀ neighbor ∈ neighbors, neighbor.Addressed blockSize) :
    Halo.ofBlockRowsChecked communicator neighbors blockSize =
      .ok (Halo.ofBlockRows communicator neighbors blockSize) := by
  rw [of_block_rows_checked_eq positive]
  refine Word.within_of ⟨fun neighbor listed => ?_, fun neighbor listed => ?_⟩
  · exact ((addressed neighbor listed).bounds positive).1
  · exact ⟨(addressed neighbor listed).sent, ((addressed neighbor listed).bounds positive).2⟩

/-- Of what cannot be numbered either no halo is made, or one whose range ends behind all words. -/
theorem checked_of_not_addressed
    (beyond : ¬∀ neighbor ∈ neighbors, neighbor.Addressed blockSize) :
    Halo.ofBlockRowsChecked communicator neighbors blockSize = .error .overflow ∨
      ∃ halo, Halo.ofBlockRowsChecked communicator neighbors blockSize = .ok halo ∧
        ∃ expanded ∈ halo.neighbors, expanded.stopChecked = .error .overflow := by
  rw [of_block_rows_checked_eq positive]
  by_cases fits : (∀ neighbor ∈ neighbors, neighbor.stop < Word.limit) ∧
      ∀ neighbor ∈ neighbors,
        (∀ row ∈ neighbor.sent, row * blockSize + blockSize ≤ Word.limit) ∧
          neighbor.start * blockSize < Word.limit ∧ neighbor.count * blockSize < Word.limit
  · right
    refine ⟨_, Word.within_of fits, ?_⟩
    by_contra ends
    refine beyond fun neighbor listed => ⟨(fits.2 neighbor listed).1, ?_⟩
    by_contra received
    refine ends ⟨neighbor.expand blockSize, List.mem_map_of_mem listed, ?_⟩
    refine Word.within_of_not ?_
    change ¬(neighbor.expand blockSize).stop < Word.limit
    rwa [Neighbor.stop_expand]
  · exact .inl (Word.within_of_not fits)

end Checked

end Relaxation

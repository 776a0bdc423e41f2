import Relaxation.Proofs.ChainRows
import Relaxation.Proofs.Word

/-!
A chain that is cut up. The columns of a part stand for its own rows and, behind them, for the
boundary rows of the ranks beside it; with its columns read that way, a row of a part is its row of
the chain. What a rank sends to the one beside it is the row that the other has a ghost column for.
All this is as long as the product that ends a rank's rows is a word.
-/

namespace Relaxation

variable {α : Type}

def Matrix.rowEntries (matrix : Matrix α) (row : Nat) : List (Nat × α) :=
  let first := matrix.rowPointers.getD row 0
  let last := matrix.rowPointers.getD (row + 1) 0
  (matrix.columnIndices.extract first last).toList.zip (matrix.values.extract first last).toList

theorem Matrix.row_entries_of_entries [Arithmetic α] (rows columns blockSize : Nat)
    (diagonal : Array α) (entries : List (Entry α)) {row : Nat} (inside : row < rows) :
    (ofEntries rows columns blockSize diagonal entries).rowEntries row =
      ((stored entries).filter fun entry => decide (entry.row = row)).map fun entry =>
        (entry.column, entry.value) := by
  have cut : ∀ {β : Type} (field : Entry α → β),
      (((stored entries).map field).toArray.extract (Entry.before (stored entries) row)
        (Entry.before (stored entries) (row + 1))).toList =
          ((stored entries).filter fun entry => decide (entry.row = row)).map field := by
    intro β field
    rw [List.extract_toArray, ← Entry.drop_take_row (stored_in_rows entries), List.map_take,
      List.map_drop]
  unfold rowEntries
  rw [row_start rows columns blockSize diagonal entries (Nat.le_of_lt inside),
    row_start rows columns blockSize diagonal entries inside]
  change List.zip (((stored entries).map Entry.column).toArray.extract _ _).toList
    (((stored entries).map Entry.value).toArray.extract _ _).toList = _
  rw [cut, cut, List.zip_map']

theorem Matrix.row_entries_perm [Arithmetic α] {rows columns blockSize row : Nat}
    {diagonal : Array α} {pieces : Nat → List (Entry α)}
    (own : ∀ row, ∀ entry ∈ pieces row, entry.row = row)
    (each : ∀ row, row < rows → Entry.Distinct (pieces row)) (inside : row < rows) :
    ((ofEntries rows columns blockSize diagonal ((List.range rows).flatMap pieces)).rowEntries
      row).Perm ((pieces row).map fun entry => (entry.column, entry.value)) := by
  have same := row_perm (Entry.distinct_pieces own each) row
  rw [Entry.filter_pieces own inside] at same
  rw [row_entries_of_entries rows columns blockSize diagonal _ inside]
  exact same.map _

namespace Model

/-- The row of the whole chain that a column of a part stands for. -/
def Part.globalRow (part : Part) (column : Nat) : Nat :=
  if column < part.owned then part.range.first + column
  else if part.hasLeft = true ∧ column = part.leftGhost then part.range.first - 1
  else part.range.last

structure Slices (part : Part) (ranks n : Nat) (slice chain : Matrix α) : Prop where
  rows : slice.rows = part.range.last - part.range.first
  columns : slice.columns = slice.rows +
    ((if 0 < part.rank then 1 else 0) + if part.rank + 1 < ranks then 1 else 0)
  whole : chain.rows = n ∧ chain.columns = n
  single : slice.blockSize = 1 ∧ chain.blockSize = 1
  sound : slice.Sound ∧ chain.Sound
  inside : ∀ column, column < slice.columns → part.globalRow column < n
  apart : ∀ left right, left < slice.columns → right < slice.columns →
    part.globalRow left = part.globalRow right → left = right
  diagonal : ∀ i, i < slice.rows →
    ∃ value, slice.diagonal[i]? = some value ∧ chain.diagonal[part.range.first + i]? = some value
  entries : ∀ i, i < slice.rows →
    ((slice.rowEntries i).map fun (column, value) => (part.globalRow column, value)).Perm
      (chain.rowEntries (part.range.first + i))

/-- What a rank is given of a chain that is cut up over its group. -/
structure Allotted (n : Nat) (diagonal coupling : α) [Arithmetic α] (ranks : Nat)
    (communicator : Communicator) (slice : Matrix α) (halo : Halo) : Prop where
  group : communicator.ranks = ranks
  member : communicator.rank < ranks
  made : chainPartChecked n diagonal coupling communicator =
    .ok (slice, partition n communicator.rank ranks)
  haloed : slice.halo = some halo

def exchanges (halo : Halo) (rank : Nat) : List Neighbor :=
  halo.neighbors.filter fun neighbor => decide (neighbor.rank = rank)

/-- The one row that is sent is the one that the ghost column it fills stands for. -/
structure Feeds (part other : Part) (sent received : Neighbor) : Prop where
  count : received.count = 1
  slot : other.owned + received.start =
    if part.rank < other.rank then other.leftGhost else other.rightGhost
  same : ∃ row, sent.sent = [row] ∧ row < part.owned ∧
    part.globalRow row = other.globalRow (other.owned + received.start)

section Columns

theorem global_row_owned {part : Part} {column : Nat} (inside : column < part.owned) :
    part.globalRow column = part.range.first + column :=
  if_pos inside

theorem global_row_left {part : Part} (beside : part.hasLeft = true) :
    part.globalRow part.leftGhost = part.range.first - 1 := by
  have behind : ¬part.leftGhost < part.owned := Nat.lt_irrefl _
  unfold Part.globalRow
  rw [if_neg behind, if_pos ⟨beside, rfl⟩]

theorem global_row_right (part : Part) : part.globalRow part.rightGhost = part.range.last := by
  have behind : ¬part.rightGhost < part.owned := Nat.not_lt.mpr (Nat.le_add_right ..)
  have apart : ¬(part.hasLeft = true ∧ part.rightGhost = part.leftGhost) := by
    rintro ⟨beside, same⟩
    simp [Part.rightGhost, Part.leftGhost, beside] at same
  unfold Part.globalRow
  rw [if_neg behind, if_neg apart]

theorem column_cases {part : Part} {column : Nat} (inside : column < part.columns) :
    column < part.owned ∨ (part.hasLeft = true ∧ column = part.leftGhost) ∨
      (part.hasRight = true ∧ column = part.rightGhost) := by
  cases left : part.hasLeft <;> cases right : part.hasRight <;>
    simp [Part.columns, Part.leftGhost, Part.rightGhost, left, right] at inside ⊢ <;> omega

end Columns

section Cut

variable {n rank ranks : Nat} (cut : Cut n rank ranks)

include cut

theorem left_of_cut : (Part.of n rank ranks).hasLeft = true ↔
    0 < (partition n rank ranks).first := by
  rw [cut.first_pos_iff]
  exact decide_eq_true_iff

theorem right_of_cut : (Part.of n rank ranks).hasRight = true ↔
    (partition n rank ranks).last < n := by
  rw [cut.last_lt_iff]
  exact decide_eq_true_iff

/-- Owned rows are listed first, then the row before them, then the row behind them. -/
theorem global_row_cases {column : Nat} (inside : column < (Part.of n rank ranks).columns) :
    (column < (Part.of n rank ranks).owned ∧ (Part.of n rank ranks).globalRow column =
        (partition n rank ranks).first + column) ∨
      (0 < (partition n rank ranks).first ∧ column = (Part.of n rank ranks).leftGhost ∧
        (Part.of n rank ranks).globalRow column = (partition n rank ranks).first - 1) ∨
      ((partition n rank ranks).last < n ∧ column = (Part.of n rank ranks).rightGhost ∧
        (Part.of n rank ranks).globalRow column = (partition n rank ranks).last) := by
  rcases column_cases inside with owned | ⟨beside, rfl⟩ | ⟨beside, rfl⟩
  · exact .inl ⟨owned, global_row_owned owned⟩
  · exact .inr (.inl ⟨(left_of_cut cut).mp beside, rfl, global_row_left beside⟩)
  · exact .inr (.inr ⟨(right_of_cut cut).mp beside, rfl, global_row_right _⟩)

theorem global_row_lt {column : Nat} (inside : column < (Part.of n rank ranks).columns) :
    (Part.of n rank ranks).globalRow column < n := by
  have most := cut.last_le
  have nonempty := cut.nonempty
  have owned := owned_part n rank ranks
  rcases global_row_cases cut inside with ⟨_, row⟩ | ⟨_, _, row⟩ | ⟨_, _, row⟩ <;> omega

theorem global_row_injective {left right : Nat} (first : left < (Part.of n rank ranks).columns)
    (second : right < (Part.of n rank ranks).columns)
    (same : (Part.of n rank ranks).globalRow left = (Part.of n rank ranks).globalRow right) :
    left = right := by
  have nonempty := cut.nonempty
  have owned := owned_part n rank ranks
  rcases global_row_cases cut first with ⟨_, row⟩ | ⟨_, _, row⟩ | ⟨_, _, row⟩ <;>
    rcases global_row_cases cut second with ⟨_, row'⟩ | ⟨_, _, row'⟩ | ⟨_, _, row'⟩ <;> omega

theorem global_row_left_column {i : Nat} (some : 0 < (partition n rank ranks).first + i)
    (inside : i < (Part.of n rank ranks).owned) :
    (Part.of n rank ranks).globalRow (leftColumn (Part.of n rank ranks) i) =
      (partition n rank ranks).first + i - 1 := by
  unfold leftColumn
  by_cases first : 0 < i
  · rw [if_pos first, global_row_owned (by omega), Nat.add_sub_assoc first]
    rfl
  · have zero : i = 0 := by omega
    subst zero
    rw [if_neg first, global_row_left ((left_of_cut cut).mpr some)]
    rfl

omit cut in
theorem global_row_right_column {i : Nat} (inside : i < (Part.of n rank ranks).owned) :
    (Part.of n rank ranks).globalRow (rightColumn (Part.of n rank ranks) i) =
      (partition n rank ranks).first + i + 1 := by
  have owned := owned_part n rank ranks
  unfold rightColumn
  by_cases last : i + 1 < (Part.of n rank ranks).owned
  · rw [if_pos last, global_row_owned last]
    rfl
  · rw [if_neg last, global_row_right]
    change (partition n rank ranks).last = _
    omega

end Cut

theorem map_sides {coupling : α} {row left right : Nat} {hasLeft hasRight : Prop}
    [Decidable hasLeft] [Decidable hasRight] (name : Nat → Nat) :
    (sides coupling row hasLeft hasRight left right).map
        (fun entry => (name entry.column, entry.value)) =
      (if hasLeft then [(name left, coupling)] else []) ++
        (if hasRight then [(name right, coupling)] else []) := by
  unfold sides
  split <;> split <;> rfl

section Slices

variable [Arithmetic α] {n rank ranks : Nat} (cut : Cut n rank ranks)

include cut

theorem part_entries {i : Nat} (diagonal coupling : α)
    (inside : i < (Part.of n rank ranks).owned) :
    (((partRows n diagonal coupling rank ranks).rowEntries i).map fun (column, value) =>
      ((Part.of n rank ranks).globalRow column, value)).Perm
        ((chainMatrix n diagonal coupling).rowEntries ((partition n rank ranks).first + i)) := by
  have part : ((partRows n diagonal coupling rank ranks).rowEntries i).Perm
      (((Part.of n rank ranks).row n coupling i).map fun entry => (entry.column, entry.value)) :=
    Matrix.row_entries_perm (part_row_own coupling)
      (fun i inside => part_row_distinct cut coupling inside) inside
  have whole : ((chainMatrix n diagonal coupling).rowEntries
      ((partition n rank ranks).first + i)).Perm
        ((chainRow n coupling ((partition n rank ranks).first + i)).map fun entry =>
          (entry.column, entry.value)) :=
    Matrix.row_entries_perm (chain_row_own n coupling) (fun i _ => chain_row_distinct n coupling i)
      (cut.row_lt inside)
  -- both rows have the same sides, and the columns they are stored under stand for one row
  refine (part.map _).trans (.trans (.of_eq ?_) whole.symm)
  rw [List.map_map, part_row_eq, chain_row_eq]
  refine (map_sides (Part.of n rank ranks).globalRow).trans (.trans ?_ (map_sides id).symm)
  congr 1
  · by_cases some : 0 < (partition n rank ranks).first + i
    · rw [if_pos some, if_pos some, global_row_left_column cut some inside]
      rfl
    · rw [if_neg some, if_neg some]
  · rw [global_row_right_column inside]
    rfl

theorem slices_of_cut {slice : Matrix α} (diagonal coupling : α) (halo : Option Halo)
    (made : slice = { partRows n diagonal coupling rank ranks with halo := halo }) :
    Slices (Part.of n rank ranks) ranks n slice (chainMatrix n diagonal coupling) := by
  subst made
  have sound := Matrix.sound_of_assemble (part_assembled cut diagonal coupling)
  refine ⟨owned_part n rank ranks, ?_, ⟨rfl, rfl⟩, ⟨rfl, rfl⟩,
    ⟨sound.with_halo halo, Matrix.sound_of_assemble (chain_ok n diagonal coupling)⟩,
    fun column inside => global_row_lt cut inside,
    fun left right first second => global_row_injective cut first second, fun i inside => ?_,
    fun i inside => part_entries cut diagonal coupling inside⟩
  · change (Part.of n rank ranks).owned + (decide (0 < rank)).toNat +
      (decide (rank + 1 < ranks)).toNat = _
    rw [Nat.add_assoc]
    congr 2
    · by_cases some : 0 < rank <;> simp [Part.of, some]
    · by_cases some : rank + 1 < ranks <;> simp [Part.of, some]
  · have owned : i < (Part.of n rank ranks).owned := inside
    have whole : (Part.of n rank ranks).range.first + i < n := cut.row_lt owned
    exact ⟨diagonal, by simp [partRows, Matrix.ofEntries, owned],
      by simp [chainMatrix, Matrix.ofEntries, whole]⟩

end Slices

section Neighbors

variable {n rank ranks : Nat}

theorem neighbors_behind (more : rank + 1 < ranks) :
    (Part.of n rank ranks).neighbors.filter (fun neighbor => decide (neighbor.rank = rank + 1)) =
      [⟨rank + 1, [(Part.of n rank ranks).owned - 1], (Part.of n rank ranks).hasLeft.toNat, 1⟩] := by
  have apart : ¬rank - 1 = rank + 1 := by omega
  by_cases left : 0 < rank
  · simp [Part.neighbors, Part.of, more, left, apart]
  · simp [Part.neighbors, Part.of, more, left]

theorem neighbors_before :
    (Part.of n (rank + 1) ranks).neighbors.filter (fun neighbor => decide (neighbor.rank = rank)) =
      [⟨rank, [0], 0, 1⟩] := by
  have apart : ¬rank + 1 + 1 = rank := by omega
  by_cases right : rank + 1 + 1 < ranks
  · simp [Part.neighbors, Part.of, right, apart]
  · simp [Part.neighbors, Part.of, right]

theorem feeds_behind (cut : Cut n rank ranks) :
    Feeds (Part.of n rank ranks) (Part.of n (rank + 1) ranks)
      ⟨rank + 1, [(Part.of n rank ranks).owned - 1], (Part.of n rank ranks).hasLeft.toNat, 1⟩
      ⟨rank, [0], 0, 1⟩ := by
  have some := cut.owned_pos
  have owned := owned_part n rank ranks
  have left : (Part.of n (rank + 1) ranks).hasLeft = true := decide_eq_true (Nat.succ_pos rank)
  refine ⟨rfl, (if_pos (Nat.lt_succ_self rank)).symm, _, rfl, by omega, ?_⟩
  change _ = (Part.of n (rank + 1) ranks).globalRow (Part.of n (rank + 1) ranks).leftGhost
  rw [global_row_owned (by omega), global_row_left left]
  change (partition n rank ranks).first + _ = (partition n rank ranks).last - 1
  omega

theorem feeds_before (cut : Cut n (rank + 1) ranks) :
    Feeds (Part.of n (rank + 1) ranks) (Part.of n rank ranks) ⟨rank, [0], 0, 1⟩
      ⟨rank + 1, [(Part.of n rank ranks).owned - 1], (Part.of n rank ranks).hasLeft.toNat, 1⟩ := by
  have order : ¬rank + 1 < rank := by omega
  refine ⟨rfl, (if_neg order).symm, 0, rfl, cut.owned_pos, ?_⟩
  change _ = (Part.of n rank ranks).globalRow (Part.of n rank ranks).rightGhost
  rw [global_row_owned cut.owned_pos, global_row_right]
  rfl

end Neighbors

section Chain

variable [Arithmetic α] {n ranks : Nat}

omit [Arithmetic α] in
theorem partition_checked_eq (rank : Nat) (some : 0 < ranks) (rows : 0 < n) :
    partitionChecked n rank ranks =
      Word.within ((rank + 1) * n < Word.limit) (partition n rank ranks) := by
  have earlier : rank * n ≤ (rank + 1) * n := Nat.mul_le_mul_right n (Nat.le_succ rank)
  have next : rank + 1 ≤ (rank + 1) * n := Nat.le_mul_of_pos_right _ rows
  have later : (Word.add rank 1 >>= fun next => Word.mul next n >>= fun last =>
      pure (RowRange.mk (rank * n / ranks) (last / ranks))) =
      Word.within (rank + 1 < Word.limit ∧ (rank + 1) * n < Word.limit)
        (partition n rank ranks) :=
    Word.within_bind _ (Word.within_map fun last => RowRange.mk (rank * n / ranks) (last / ranks))
  have all : rank * n < Word.limit ∧ rank + 1 < Word.limit ∧ (rank + 1) * n < Word.limit ↔
      (rank + 1) * n < Word.limit :=
    ⟨fun fits => fits.2.2, fun fits => ⟨earlier.trans_lt fits, next.trans_lt fits, fits⟩⟩
  rw [← Word.within_congr all rfl]
  unfold partitionChecked
  refine Word.within_bind _ ?_
  dsimp only
  rw [if_neg (Nat.ne_of_gt some)]
  exact later

section Checked

variable {communicator : Communicator} (group : communicator.ranks = ranks)
  (member : communicator.rank < ranks) (enough : ranks ≤ n) (diagonal coupling : α)

include group member enough

theorem chain_part_checked_eq (fits : (communicator.rank + 1) * n < Word.limit) :
    chainPartChecked n diagonal coupling communicator =
      chainPart n diagonal coupling communicator := by
  unfold chainPartChecked
  rw [group, partition_checked_eq _ (by omega) (by omega), Word.within_of fits]
  rfl

theorem chain_part_checked_overflows (beyond : Word.limit ≤ (communicator.rank + 1) * n) :
    chainPartChecked n diagonal coupling communicator = .error (.faulted .overflow) := by
  unfold chainPartChecked
  rw [group, partition_checked_eq _ (by omega) (by omega),
    Word.within_of_not (Nat.not_lt.mpr beyond)]
  rfl

end Checked

theorem Allotted.fits {diagonal coupling : α} {communicator : Communicator} {slice : Matrix α}
    {halo : Halo} (enough : ranks ≤ n)
    (allotted : Allotted n diagonal coupling ranks communicator slice halo) :
    (communicator.rank + 1) * n < Word.limit := by
  by_contra beyond
  have made := allotted.made
  rw [chain_part_checked_overflows allotted.group allotted.member enough diagonal coupling
    (Nat.not_lt.mp beyond)] at made
  cases made

theorem Allotted.halo_eq {diagonal coupling : α} {communicator : Communicator} {slice : Matrix α}
    {halo : Halo} (enough : ranks ≤ n)
    (allotted : Allotted n diagonal coupling ranks communicator slice halo) :
    halo = .ofBlockRows communicator (Part.of n communicator.rank ranks).neighbors 1 := by
  have made := allotted.made
  rw [chain_part_checked_eq allotted.group allotted.member enough diagonal coupling
    (allotted.fits enough), chain_part_ok ⟨allotted.member, enough⟩ diagonal coupling rfl allotted.group] at made
  cases made
  exact (Option.some.inj allotted.haloed).symm

theorem Allotted.exchanges_eq {diagonal coupling : α} {communicator : Communicator}
    {slice : Matrix α} {halo : Halo} (enough : ranks ≤ n)
    (allotted : Allotted n diagonal coupling ranks communicator slice halo) (rank : Nat) :
    exchanges halo rank = (Part.of n communicator.rank ranks).neighbors.filter
      fun neighbor => decide (neighbor.rank = rank) := by
  unfold exchanges
  rw [allotted.halo_eq enough, halo_neighbors]

/-- Every rank of a group that is no larger than the chain gets its slice of it, with as many
ghost columns as there are ranks beside it, or faults if the product that ends its rows is no word.
Two ranks that are side by side agree on the rows they exchange. -/
theorem chain_parts_fit (enough : ranks ≤ n) (diagonal coupling : α) :
    ∃ whole, chain n diagonal coupling = .ok whole ∧
      (∀ communicator : Communicator, communicator.ranks = ranks → communicator.rank < ranks →
        ((communicator.rank + 1) * n < Word.limit →
          ∃ slice halo, Allotted n diagonal coupling ranks communicator slice halo ∧
            Slices (Part.of n communicator.rank ranks) ranks n slice whole) ∧
        (Word.limit ≤ (communicator.rank + 1) * n →
          chainPartChecked n diagonal coupling communicator = .error (.faulted .overflow))) ∧
      ∀ (one other : Communicator) (slice slice' : Matrix α) (halo halo' : Halo),
        Allotted n diagonal coupling ranks one slice halo →
        Allotted n diagonal coupling ranks other slice' halo' →
        one.rank + 1 = other.rank ∨ other.rank + 1 = one.rank →
          ∃ sent received, exchanges halo other.rank = [sent] ∧
            exchanges halo' one.rank = [received] ∧
            Feeds (Part.of n one.rank ranks) (Part.of n other.rank ranks) sent received := by
  refine ⟨_, chain_ok n diagonal coupling, fun communicator group member => ⟨fun fits => ?_,
      chain_part_checked_overflows group member enough diagonal coupling⟩,
    fun one other slice slice' halo halo' mine theirs beside => ?_⟩
  · have cut : Cut n communicator.rank ranks := ⟨member, enough⟩
    have made := (chain_part_checked_eq group member enough diagonal coupling fits).trans
      (chain_part_ok cut diagonal coupling rfl group)
    exact ⟨_, _, ⟨group, member, made, rfl⟩, slices_of_cut cut diagonal coupling _ rfl⟩
  · have member := mine.member
    have member' := theirs.member
    rw [mine.exchanges_eq enough, theirs.exchanges_eq enough]
    generalize one.rank = rank at beside member ⊢
    generalize other.rank = rank' at beside member' ⊢
    rcases beside with rfl | rfl
    · exact ⟨_, _, neighbors_behind member', neighbors_before, feeds_behind ⟨member, enough⟩⟩
    · exact ⟨_, _, neighbors_before, neighbors_behind member, feeds_before ⟨member, enough⟩⟩

/-- Three ranks share four rows, so that the first two own a single one. -/
theorem four_rows_three_ranks :
    ∃ slice halo slice' halo', ∃ whole : Matrix Float, chain 4 2.5 (-1) = .ok whole ∧
      Allotted 4 2.5 (-1) 3 (.member 1 3) slice halo ∧
      Slices (Part.of 4 1 3) 3 4 slice whole ∧ (Part.of 4 1 3).owned = 1 ∧ slice.columns = 3 ∧
      Allotted 4 2.5 (-1) 3 (.member 2 3) slice' halo' ∧
      ∃ sent received, exchanges halo 2 = [sent] ∧ exchanges halo' 1 = [received] ∧
        Feeds (Part.of 4 1 3) (Part.of 4 2 3) sent received := by
  obtain ⟨whole, made, parts, fit⟩ :=
    chain_parts_fit (show 3 ≤ 4 by decide) (2.5 : Float) (-1)
  obtain ⟨slice, halo, allotted, slices⟩ := (parts (.member 1 3) rfl (by decide)).1 (by decide)
  obtain ⟨slice', halo', allotted', _⟩ := (parts (.member 2 3) rfl (by decide)).1 (by decide)
  refine ⟨slice, halo, slice', halo', whole, made, allotted, slices, by decide, ?_, allotted',
    fit (.member 1 3) (.member 2 3) slice slice' halo halo' allotted allotted' (.inl rfl)⟩
  rw [slices.columns, slices.rows]
  decide

/-- The last rank of a group as large as its chain owns a single row, which is the one in front of
the greatest word if their product is. -/
theorem last_single_row_faults :
    (Part.of (2 ^ 32) (2 ^ 32 - 1) (2 ^ 32)).owned = 1 ∧
      chainPartChecked (2 ^ 32) (2.5 : Float) (-1) (.member (2 ^ 32 - 1) (2 ^ 32)) =
        .error (.faulted .overflow) :=
  ⟨by decide, chain_part_checked_overflows rfl (by decide) (Nat.le_refl _) _ _ (by decide)⟩

end Chain

end Model
end Relaxation

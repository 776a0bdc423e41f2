import Relaxation.Model
import Relaxation.Proofs.Rounding
import Relaxation.Proofs.Rows

/-!
A chain and its parts. A row of a part adds up the same two products as its row of the
whole chain, but ghost columns come last, so it may add them the other way round.
-/

namespace Relaxation

namespace SignedZeros

variable {α β : Type} [Arithmetic α] [SignedZeros α]

theorem zero_add_swap (a b : α) : 0 + a + b = 0 + b + a := by
  by_cases left : a = -0
  · rw [left, add_neg_zero, add_neg_zero]
  · -- apart from negative zeros, a sum that starts from zero starts from its first value
    by_cases right : b = -0
    · rw [right, add_neg_zero, add_neg_zero]
    · rw [zero_add a left, zero_add b right, add_comm]

/-- A sum of two values at most does not depend on their order. -/
theorem foldl_perm (value : β → α) {first second : List β} (same : first.Perm second)
    (short : second.length ≤ 2) :
    first.foldl (fun sum item => sum + value item) 0 =
      second.foldl (fun sum item => sum + value item) 0 := by
  match second, short with
  | [], _ => rw [same.eq_nil]
  | [a], _ => rw [List.perm_singleton.mp same]
  | [a, b], _ =>
      obtain ⟨c, d, rfl⟩ := List.length_eq_two.mp same.length_eq
      rcases List.mem_pair.mp (same.mem_iff.mp List.mem_cons_self) with rfl | rfl
      · have last := List.singleton_perm_singleton.mp ((List.perm_cons c).mp same)
        rw [last]
      · have last := List.singleton_perm_singleton.mp
          ((List.perm_cons c).mp (same.trans (List.Perm.swap c a [])))
        subst last
        exact zero_add_swap (value c) (value d)

end SignedZeros

namespace Entry

variable {α : Type} {pieces : Nat → List (Entry α)}

theorem filter_pieces (own : ∀ row, ∀ entry ∈ pieces row, entry.row = row) {rows row : Nat}
    (inside : row < rows) :
    ((List.range rows).flatMap pieces).filter (fun entry => decide (entry.row = row)) =
      pieces row := by
  -- a filter keeps all of one piece and nothing of the others
  have alone : ∀ other, (pieces other).filter (fun entry => decide (entry.row = row)) =
      if other = row then pieces row else [] := by
    intro other
    by_cases same : other = row
    · subst same
      rw [if_pos rfl]
      apply List.filter_eq_self.mpr
      intro entry member
      exact decide_eq_true (own other entry member)
    · rw [if_neg same]
      apply List.filter_eq_nil_iff.mpr
      intro entry member
      rw [own other entry member]
      simpa using same
  have found : ((List.range rows).flatMap fun other => if other = row then pieces row else []) =
      if row < rows then pieces row else [] := by
    clear inside
    induction rows with
    | zero => rfl
    | succ rows ih =>
        rw [List.range_succ, List.flatMap_append, ih, List.flatMap_singleton]
        rcases Nat.lt_trichotomy row rows with before | same | behind
        · rw [if_pos before, if_neg (by omega), if_pos (by omega), List.append_nil]
        · rw [if_neg (by omega), if_pos same.symm, if_pos (by omega), List.nil_append]
        · rw [if_neg (by omega), if_neg (by omega), if_neg (by omega), List.append_nil]
  rw [List.filter_flatMap]
  simp only [alone, found, if_pos inside]

theorem distinct_pieces (own : ∀ row, ∀ entry ∈ pieces row, entry.row = row)
    {rows : Nat} (each : ∀ row, row < rows → Distinct (pieces row)) :
    Distinct ((List.range rows).flatMap pieces) := by
  apply List.pairwise_flatMap.mpr
  refine ⟨fun row member => each row (List.mem_range.mp member), ?_⟩
  apply List.nodup_range.imp
  intro row other different a first b second same
  rw [own row a first, own other b second] at same
  exact absurd same different

end Entry

namespace Matrix

variable {α : Type} [Arithmetic α]

theorem coupling_of_pieces [SignedZeros α] {rows columns row : Nat} {diagonal : Array α}
    {pieces : Nat → List (Entry α)} (own : ∀ row, ∀ entry ∈ pieces row, entry.row = row)
    (each : ∀ row, row < rows → Entry.Distinct (pieces row)) (short : (pieces row).length ≤ 2)
    (inside : row < rows) (x : Array α) :
    (ofEntries rows columns 1 diagonal ((List.range rows).flatMap pieces)).coupling x row 0 =
      (pieces row).foldl (fun sum entry => sum + entry.value * x.getD entry.column 0) 0 := by
  have distinct := Entry.distinct_pieces own each
  have same := row_perm distinct row
  rw [Entry.filter_pieces own inside] at same
  rw [coupling_of_entries x inside]
  simp only [Nat.mul_one, Nat.add_zero]
  exact SignedZeros.foldl_perm (fun entry : Entry α => entry.value * x.getD entry.column 0) same
    short

end Matrix

namespace Model

variable {α : Type}

def sides (coupling : α) (row : Nat) (hasLeft hasRight : Prop) [Decidable hasLeft]
    [Decidable hasRight] (left right : Nat) : List (Entry α) :=
  (if hasLeft then [⟨row, left, coupling⟩] else []) ++
    (if hasRight then [⟨row, right, coupling⟩] else [])

section Sides

variable {coupling : α} {row left right : Nat} {hasLeft hasRight : Prop} [Decidable hasLeft]
  [Decidable hasRight]

theorem mem_sides_iff {entry : Entry α} : entry ∈ sides coupling row hasLeft hasRight left right ↔
    (hasLeft ∧ entry = ⟨row, left, coupling⟩) ∨ (hasRight ∧ entry = ⟨row, right, coupling⟩) := by
  unfold sides
  rw [List.mem_append]
  split <;> split <;> simp [*]

theorem mem_sides {entry : Entry α} (member : entry ∈ sides coupling row hasLeft hasRight left right) :
    entry.row = row ∧ ((hasLeft ∧ entry.column = left) ∨ (hasRight ∧ entry.column = right)) := by
  rcases mem_sides_iff.mp member with ⟨some, rfl⟩ | ⟨some, rfl⟩
  · exact ⟨rfl, .inl ⟨some, rfl⟩⟩
  · exact ⟨rfl, .inr ⟨some, rfl⟩⟩

theorem length_sides : (sides coupling row hasLeft hasRight left right).length ≤ 2 := by
  unfold sides
  split <;> split <;> simp

theorem distinct_sides (apart : hasLeft → hasRight → left ≠ right) :
    Entry.Distinct (sides coupling row hasLeft hasRight left right) := by
  unfold sides Entry.Distinct
  split <;> split <;> simp_all

variable [Arithmetic α]

theorem foldl_sides_congr {x y : Array α} {row' left' right' : Nat}
    (sameLeft : hasLeft → x.getD left 0 = y.getD left' 0)
    (sameRight : hasRight → x.getD right 0 = y.getD right' 0) :
    (sides coupling row hasLeft hasRight left right).foldl
        (fun sum entry => sum + entry.value * x.getD entry.column 0) 0 =
      (sides coupling row' hasLeft hasRight left' right').foldl
        (fun sum entry => sum + entry.value * y.getD entry.column 0) 0 := by
  unfold sides
  split <;> split <;> simp_all

end Sides

theorem chain_row_eq (n : Nat) (coupling : α) (i : Nat) :
    chainRow n coupling i = sides coupling i (0 < i) (i + 1 < n) (i - 1) (i + 1) :=
  rfl

theorem chain_row_own (n : Nat) (coupling : α) (i : Nat) :
    ∀ entry ∈ chainRow n coupling i, entry.row = i :=
  fun _ member => (mem_sides (chain_row_eq n coupling i ▸ member)).1

theorem chain_row_distinct (n : Nat) (coupling : α) (i : Nat) :
    Entry.Distinct (chainRow n coupling i) :=
  chain_row_eq n coupling i ▸ distinct_sides fun _ _ => by omega

variable [Arithmetic α]

def chainMatrix (n : Nat) (diagonal coupling : α) : Matrix α :=
  .ofEntries n n 1 (Array.replicate n diagonal) ((List.range n).flatMap (chainRow n coupling))

section Shape

variable (n : Nat) (diagonal coupling : α)

@[simp] theorem rows_chain : (chainMatrix n diagonal coupling).rows = n :=
  rfl

@[simp] theorem columns_chain : (chainMatrix n diagonal coupling).columns = n :=
  rfl

@[simp] theorem block_size_chain : (chainMatrix n diagonal coupling).blockSize = 1 :=
  rfl

end Shape

theorem chain_ok (n : Nat) (diagonal coupling : α) :
    chain n diagonal coupling = .ok (chainMatrix n diagonal coupling) := by
  refine Matrix.assemble_of_placed Nat.one_pos (Nat.le_refl n) (by simp) fun entry member => ?_
  obtain ⟨i, listed, member⟩ := List.mem_flatMap.mp member
  have inside := List.mem_range.mp listed
  obtain ⟨row, column⟩ := mem_sides (chain_row_eq n coupling i ▸ member)
  omega

theorem chain_coupling [SignedZeros α] {n i : Nat} (diagonal coupling : α) (inside : i < n)
    (x : Array α) :
    (chainMatrix n diagonal coupling).coupling x i 0 =
      (chainRow n coupling i).foldl
        (fun sum entry => sum + entry.value * x.getD entry.column 0) 0 :=
  Matrix.coupling_of_pieces (chain_row_own n coupling) (fun i _ => chain_row_distinct n coupling i)
    length_sides inside x

theorem owned_part (n rank ranks : Nat) : (Part.of n rank ranks).owned =
    (partition n rank ranks).last - (partition n rank ranks).first :=
  rfl

theorem owned_le_columns (part : Part) : part.owned ≤ part.columns := by
  unfold Part.columns
  omega

structure Cut (n rank ranks : Nat) : Prop where
  rank : rank < ranks
  ranks : ranks ≤ n

section Parts

variable {n rank ranks : Nat} (cut : Cut n rank ranks)

include cut

theorem Cut.nonempty : (partition n rank ranks).first < (partition n rank ranks).last := by
  have enough := cut.ranks
  have positive : 0 < ranks := Nat.zero_lt_of_lt cut.rank
  have more : rank * n + ranks ≤ (rank + 1) * n := by
    rw [Nat.succ_mul]
    omega
  have steps := Nat.div_le_div_right (c := ranks) more
  rwa [Nat.add_div_right _ positive] at steps

theorem Cut.last_le : (partition n rank ranks).last ≤ n := by
  have positive : 0 < ranks := Nat.zero_lt_of_lt cut.rank
  have most : (rank + 1) * n ≤ n * ranks := by
    rw [Nat.mul_comm n]
    exact Nat.mul_le_mul_right n cut.rank
  exact Nat.div_le_of_le_mul (by rwa [Nat.mul_comm ranks])

theorem Cut.row_lt {i : Nat} (inside : i < (Part.of n rank ranks).owned) :
    (partition n rank ranks).first + i < n := by
  have owned := owned_part n rank ranks
  have most := cut.last_le
  omega

theorem Cut.first_pos_iff : 0 < (partition n rank ranks).first ↔ 0 < rank := by
  have enough := cut.ranks
  have positive : 0 < ranks := Nat.zero_lt_of_lt cut.rank
  refine ⟨fun some => ?_, fun some => ?_⟩
  · by_contra none
    have zero : rank = 0 := by omega
    subst zero
    simp [partition] at some
  · apply Nat.div_pos _ positive
    calc ranks ≤ n := enough
      _ = 1 * n := (Nat.one_mul n).symm
      _ ≤ rank * n := Nat.mul_le_mul_right n some

theorem Cut.last_lt_iff : (partition n rank ranks).last < n ↔ rank + 1 < ranks := by
  have enough := cut.ranks
  have inside := cut.rank
  have positive : 0 < ranks := Nat.zero_lt_of_lt inside
  refine ⟨fun some => ?_, fun some => ?_⟩
  · by_contra none
    have final : rank + 1 = ranks := by omega
    have whole : (partition n rank ranks).last = n := by
      rw [partition, final]
      exact Nat.mul_div_cancel_left n positive
    omega
  · apply (Nat.div_lt_iff_lt_mul positive).mpr
    rw [Nat.mul_comm n]
    exact Nat.mul_lt_mul_of_pos_right some (by omega)

theorem Cut.left_count : (Part.of n rank ranks).hasLeft.toNat =
    if 0 < (partition n rank ranks).first then 1 else 0 := by
  have left := cut.first_pos_iff
  by_cases some : 0 < rank
  · simp [Part.of, some, left.mpr some]
  · simp [Part.of, some, mt left.mp some]

theorem Cut.right_count : (Part.of n rank ranks).hasRight.toNat =
    if (partition n rank ranks).last < n then 1 else 0 := by
  have right := cut.last_lt_iff
  by_cases some : rank + 1 < ranks
  · simp [Part.of, some, right.mpr some]
  · simp [Part.of, some, mt right.mp some]

end Parts

section Rows

variable {n rank ranks : Nat}

def leftColumn (part : Part) (i : Nat) : Nat :=
  if 0 < i then i - 1 else part.leftGhost

def rightColumn (part : Part) (i : Nat) : Nat :=
  if i + 1 < part.owned then i + 1 else part.rightGhost

omit [Arithmetic α] in
theorem part_row_eq (coupling : α) (i : Nat) :
    (Part.of n rank ranks).row n coupling i = sides coupling i
      (0 < (partition n rank ranks).first + i) ((partition n rank ranks).first + i + 1 < n)
      (leftColumn (Part.of n rank ranks) i) (rightColumn (Part.of n rank ranks) i) :=
  rfl

omit [Arithmetic α] in
theorem part_row_own (coupling : α) (i : Nat) :
    ∀ entry ∈ (Part.of n rank ranks).row n coupling i, entry.row = i :=
  fun _ member => (mem_sides (part_row_eq coupling i ▸ member)).1

variable (cut : Cut n rank ranks)

include cut

omit [Arithmetic α] in
theorem left_column_fits {i : Nat} (inside : i < (Part.of n rank ranks).owned)
    (some : 0 < (partition n rank ranks).first + i) :
    leftColumn (Part.of n rank ranks) i < (Part.of n rank ranks).columns ∧
      leftColumn (Part.of n rank ranks) i ≠ i := by
  have count := cut.left_count
  unfold leftColumn Part.leftGhost Part.columns
  by_cases first : 0 < i
  · rw [if_pos first]
    omega
  · rw [if_neg first, count, if_pos (by omega)]
    omega

omit [Arithmetic α] in
theorem right_column_fits {i : Nat} (inside : i < (Part.of n rank ranks).owned)
    (some : (partition n rank ranks).first + i + 1 < n) :
    rightColumn (Part.of n rank ranks) i < (Part.of n rank ranks).columns ∧
      rightColumn (Part.of n rank ranks) i ≠ i := by
  have count := cut.right_count
  have owned := owned_part n rank ranks
  unfold rightColumn Part.rightGhost Part.columns
  by_cases last : i + 1 < (Part.of n rank ranks).owned
  · rw [if_pos last]
    omega
  · rw [if_neg last, count, if_pos (by omega)]
    omega

omit [Arithmetic α] in
theorem columns_apart {i : Nat} (inside : i < (Part.of n rank ranks).owned)
    (some : 0 < (partition n rank ranks).first + i) :
    leftColumn (Part.of n rank ranks) i ≠ rightColumn (Part.of n rank ranks) i := by
  have count := cut.left_count
  unfold leftColumn rightColumn Part.leftGhost Part.rightGhost
  by_cases first : 0 < i
  · rw [if_pos first]
    split <;> omega
  · rw [if_neg first]
    split
    · omega
    · -- in a part of one row the right ghost comes behind the left one
      rw [count, if_pos (by omega)]
      omega

omit [Arithmetic α] in
theorem part_row_distinct (coupling : α) {i : Nat} (inside : i < (Part.of n rank ranks).owned) :
    Entry.Distinct ((Part.of n rank ranks).row n coupling i) := by
  rw [part_row_eq]
  exact distinct_sides fun some _ => columns_apart cut inside some

def partRows (n : Nat) (diagonal coupling : α) (rank ranks : Nat) : Matrix α :=
  .ofEntries (Part.of n rank ranks).owned (Part.of n rank ranks).columns 1
    (Array.replicate (Part.of n rank ranks).owned diagonal)
    ((List.range (Part.of n rank ranks).owned).flatMap ((Part.of n rank ranks).row n coupling))

def partMatrix (n : Nat) (diagonal coupling : α) (rank ranks : Nat) : Matrix α :=
  { partRows n diagonal coupling rank ranks with
    halo := some (.ofBlockRows (.member rank ranks) (Part.of n rank ranks).neighbors 1) }

end Rows

section Shape

variable (n : Nat) (diagonal coupling : α) (rank ranks : Nat)

@[simp] theorem rows_part :
    (partMatrix n diagonal coupling rank ranks).rows = (Part.of n rank ranks).owned :=
  rfl

@[simp] theorem columns_part :
    (partMatrix n diagonal coupling rank ranks).columns = (Part.of n rank ranks).columns :=
  rfl

@[simp] theorem block_size_part : (partMatrix n diagonal coupling rank ranks).blockSize = 1 :=
  rfl

end Shape

theorem expand_one (neighbor : Neighbor) : neighbor.expand 1 = neighbor := by
  have single : components 1 = fun row => [row] := by
    funext row
    simp [components]
  have same : neighbor.sent.flatMap (components 1) = neighbor.sent := by
    rw [single]
    simp
  unfold Neighbor.expand
  rw [same, Nat.mul_one, Nat.mul_one]

theorem map_expand_one (neighbors : List Neighbor) :
    (neighbors.map fun neighbor => neighbor.expand 1) = neighbors := by
  rw [List.map_congr_left fun neighbor _ => expand_one neighbor, List.map_id']

theorem halo_neighbors (part : Part) (communicator : Communicator) :
    (Halo.ofBlockRows communicator part.neighbors 1).neighbors = part.neighbors :=
  map_expand_one part.neighbors

theorem ghost_rows (part : Part) (communicator : Communicator) :
    (Halo.ofBlockRows communicator part.neighbors 1).ghostRows =
      part.hasLeft.toNat + part.hasRight.toNat := by
  rcases part with ⟨rank, range, _ | _, _ | _⟩ <;> rfl

theorem sent_lt {part : Part} (some : 0 < part.owned) :
    ∀ neighbor ∈ part.neighbors, ∀ row ∈ neighbor.sent, row < part.owned := by
  intro neighbor member row sent
  rcases List.mem_append.mp member with left | right
  · split at left
    · rw [List.mem_singleton] at left
      subst left
      rw [List.mem_singleton] at sent
      omega
    · cases left
  · split at right
    · rw [List.mem_singleton] at right
      subst right
      rw [List.mem_singleton] at sent
      omega
    · cases right

omit [Arithmetic α] in
theorem with_halo_ok {part : Part} {matrix : Matrix α} (communicator : Communicator)
    (some : 0 < part.owned) (rows : matrix.rows = part.owned)
    (columns : matrix.columns = part.columns) :
    matrix.withHalo (.ofBlockRows communicator part.neighbors 1) =
      .ok { matrix with halo := .some (.ofBlockRows communicator part.neighbors 1) } := by
  have covers : ¬matrix.columns < matrix.rows := by
    rw [rows, columns, Part.columns]
    omega
  have ghosts : ¬matrix.columns - matrix.rows <
      (Halo.ofBlockRows communicator part.neighbors 1).ghostRows := by
    rw [rows, columns, ghost_rows, Part.columns]
    omega
  have own : (Halo.ofBlockRows communicator part.neighbors 1).maxSentRow.any (matrix.rows ≤ ·) =
      false := by
    unfold Halo.maxSentRow
    rw [halo_neighbors, rows]
    cases largest : (part.neighbors.flatMap Neighbor.sent).max? with
    | none => rfl
    | some row =>
        obtain ⟨neighbor, listed, sent⟩ := List.mem_flatMap.mp (List.max?_mem largest)
        have bound := sent_lt some neighbor listed row sent
        simpa [Halo.ofBlockRows] using bound
  unfold Matrix.withHalo
  rw [if_neg covers, if_neg ghosts, own]
  rfl

/-- The values a rank has of a global vector: its own rows, and beside them the boundary
rows of its neighbors. -/
structure Sees (n rank ranks : Nat) (x y : Array α) : Prop where
  owned : ∀ i, i < (Part.of n rank ranks).owned →
    y.getD i 0 = x.getD ((partition n rank ranks).first + i) 0
  left : 0 < (partition n rank ranks).first →
    y.getD (Part.of n rank ranks).leftGhost 0 = x.getD ((partition n rank ranks).first - 1) 0
  right : (partition n rank ranks).last < n →
    y.getD (Part.of n rank ranks).rightGhost 0 = x.getD (partition n rank ranks).last 0

section Part

variable {n rank ranks : Nat} (cut : Cut n rank ranks)

include cut

omit [Arithmetic α] in
theorem part_placed (coupling : α) :
    ∀ entry ∈ (List.range (Part.of n rank ranks).owned).flatMap
        ((Part.of n rank ranks).row n coupling),
      entry.row < (Part.of n rank ranks).owned ∧ entry.column < (Part.of n rank ranks).columns ∧
        entry.row ≠ entry.column := by
  intro entry member
  obtain ⟨i, listed, member⟩ := List.mem_flatMap.mp member
  have inside := List.mem_range.mp listed
  obtain ⟨row, ⟨some, column⟩ | ⟨some, column⟩⟩ := mem_sides (part_row_eq coupling i ▸ member)
  · obtain ⟨bound, apart⟩ := left_column_fits cut inside some
    rw [row, column]
    exact ⟨inside, bound, apart.symm⟩
  · obtain ⟨bound, apart⟩ := right_column_fits cut inside some
    rw [row, column]
    exact ⟨inside, bound, apart.symm⟩

theorem part_assembled (diagonal coupling : α) :
    Matrix.assemble (Part.of n rank ranks).owned (Part.of n rank ranks).columns 1
        (Array.replicate (Part.of n rank ranks).owned diagonal)
        ((List.range (Part.of n rank ranks).owned).flatMap
          ((Part.of n rank ranks).row n coupling)) =
      .ok (partRows n diagonal coupling rank ranks) := by
  exact Matrix.assemble_of_placed Nat.one_pos (owned_le_columns _) (by simp) (part_placed cut coupling)

omit [Arithmetic α] in
theorem Cut.owned_pos : 0 < (Part.of n rank ranks).owned :=
  Nat.sub_pos_of_lt cut.nonempty

theorem chain_part_ok (diagonal coupling : α) {communicator : Communicator}
    (here : communicator.rank = rank) (group : communicator.ranks = ranks) :
    chainPart n diagonal coupling communicator =
      .ok ({ partRows n diagonal coupling rank ranks with
        halo := some (.ofBlockRows communicator (Part.of n rank ranks).neighbors 1) },
        partition n rank ranks) := by
  have some := cut.owned_pos
  have owned : ¬(Part.of n rank ranks).owned = 0 := Nat.ne_of_gt some
  have rows := part_assembled cut diagonal coupling
  have haloed : (partRows n diagonal coupling rank ranks).withHalo
      (.ofBlockRows communicator (Part.of n rank ranks).neighbors 1) =
        .ok { partRows n diagonal coupling rank ranks with
          halo := .some (.ofBlockRows communicator (Part.of n rank ranks).neighbors 1) } :=
    with_halo_ok communicator some rfl rfl
  unfold chainPart
  simp only [here, group, if_neg owned, rows]
  change ((partRows n diagonal coupling rank ranks).withHalo _ >>= _) = _
  rw [haloed]
  rfl

theorem part_ok (diagonal coupling : α) :
    chainPart n diagonal coupling (.member rank ranks) =
      .ok (partMatrix n diagonal coupling rank ranks, partition n rank ranks) :=
  chain_part_ok cut diagonal coupling rfl rfl

theorem part_sound (diagonal coupling : α) : (partMatrix n diagonal coupling rank ranks).Sound :=
  (Matrix.sound_of_assemble (part_assembled cut diagonal coupling)).with_halo _

theorem part_coupling [SignedZeros α] {i : Nat} (diagonal coupling : α)
    (inside : i < (Part.of n rank ranks).owned) (y : Array α) :
    (partMatrix n diagonal coupling rank ranks).coupling y i 0 =
      ((Part.of n rank ranks).row n coupling i).foldl
        (fun sum entry => sum + entry.value * y.getD entry.column 0) 0 := by
  have short : ((Part.of n rank ranks).row n coupling i).length ≤ 2 := by
    rw [part_row_eq]
    exact length_sides
  change (partRows n diagonal coupling rank ranks).coupling y i 0 = _
  exact Matrix.coupling_of_pieces (part_row_own coupling)
    (fun i inside => part_row_distinct cut coupling inside) short inside y

theorem coupling_eq [SignedZeros α] {i : Nat} (diagonal coupling : α)
    (inside : i < (Part.of n rank ranks).owned) {x y : Array α} (sees : Sees n rank ranks x y) :
    (partMatrix n diagonal coupling rank ranks).coupling y i 0 =
      (chainMatrix n diagonal coupling).coupling x ((partition n rank ranks).first + i) 0 := by
  have owned := owned_part n rank ranks
  rw [part_coupling cut diagonal coupling inside, chain_coupling diagonal coupling (cut.row_lt inside),
    part_row_eq, chain_row_eq]
  -- both rows have the same sides; only the columns they are stored under differ
  apply foldl_sides_congr
  · intro some
    unfold leftColumn
    by_cases first : 0 < i
    · rw [if_pos first, sees.owned (i - 1) (by omega)]
      congr 1
      omega
    · have zero : i = 0 := by omega
      subst zero
      rw [if_neg first, sees.left some]
      rfl
  · intro some
    unfold rightColumn
    by_cases last : i + 1 < (Part.of n rank ranks).owned
    · rw [if_pos last, sees.owned (i + 1) last]
      rfl
    · have final : (partition n rank ranks).first + i + 1 = (partition n rank ranks).last := by
        omega
      rw [if_neg last, sees.right (final ▸ some), final]

end Part

end Model
end Relaxation

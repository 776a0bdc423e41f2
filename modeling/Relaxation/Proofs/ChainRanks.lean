import Relaxation.Proofs.ChainStep
import Relaxation.Proofs.Interleaving

/-!
The ranks of a cut chain, side by side. In every iteration each finds beside its rows what
its neighbors have in theirs, so together they compute what one process would.
-/

namespace Relaxation.Model

variable {α μ : Type} [Arithmetic α]

section Neighbors

variable {n rank ranks : Nat}

theorem mem_neighbors {neighbor : Neighbor} :
    neighbor ∈ (Part.of n rank ranks).neighbors ↔
      (0 < rank ∧ neighbor = ⟨rank - 1, [0], 0, 1⟩) ∨
      (rank + 1 < ranks ∧ neighbor = ⟨rank + 1, [(Part.of n rank ranks).owned - 1],
        (Part.of n rank ranks).hasLeft.toNat, 1⟩) := by
  unfold Part.neighbors
  by_cases left : 0 < rank <;> by_cases right : rank + 1 < ranks <;> simp [Part.of, left, right]

theorem neighbors_distinct :
    ((Part.of n rank ranks).neighbors.map Neighbor.rank).Nodup := by
  unfold Part.neighbors
  by_cases left : 0 < rank <;> by_cases right : rank + 1 < ranks <;> simp [Part.of, left, right]

theorem neighbors_apart : (Part.of n rank ranks).neighbors.Pairwise
    fun a b => ∀ index, a.Covers index → ¬ b.Covers index := by
  unfold Part.neighbors
  by_cases left : 0 < rank <;> by_cases right : rank + 1 < ranks <;>
    simp [Part.of, left, right, Neighbor.Covers, Neighbor.stop]

theorem neighbors_back (inside : rank < ranks) {neighbor : Neighbor}
    (listed : neighbor ∈ (Part.of n rank ranks).neighbors) :
    neighbor.rank < ranks ∧ ∃ their ∈ (Part.of n neighbor.rank ranks).neighbors,
      their.rank = rank ∧ their.sent.length = neighbor.count := by
  rcases mem_neighbors.mp listed with ⟨some, rfl⟩ | ⟨more, rfl⟩
  · have before : rank - 1 + 1 = rank := Nat.sub_add_cancel some
    refine ⟨by dsimp only; omega, _, mem_neighbors.mpr (.inr ⟨?_, rfl⟩), before, rfl⟩
    exact before ▸ inside
  · exact ⟨more, _, mem_neighbors.mpr (.inl ⟨Nat.succ_pos rank, rfl⟩), Nat.add_sub_cancel .., rfl⟩

theorem left_sends (some : 0 < rank) {their : Neighbor}
    (listed : their ∈ (Part.of n (rank - 1) ranks).neighbors) (named : their.rank = rank) :
    their.sent = [(Part.of n (rank - 1) ranks).owned - 1] := by
  rcases mem_neighbors.mp listed with ⟨_, rfl⟩ | ⟨_, rfl⟩
  · dsimp only at named
    omega
  · rfl

theorem right_sends {their : Neighbor}
    (listed : their ∈ (Part.of n (rank + 1) ranks).neighbors) (named : their.rank = rank) :
    their.sent = [0] := by
  rcases mem_neighbors.mp listed with ⟨_, rfl⟩ | ⟨_, rfl⟩
  · rfl
  · dsimp only at named
    omega

end Neighbors

section Rounds

variable [SquareRoot α] [SignedZeros α] {n ranks t left : Nat} {diagonal coupling : α}
  {rhs x : Array α} {widths : Nat → BlockWidth} {residuals : Nat → α}
  {programs : List (Collective α (Except (Failure α) (Outcome α × Array α)))}

def ranksSquare (widths : Nat → BlockWidth) (n ranks : Nat) (diagonal coupling : α)
    (rhs x : Array α) : α :=
  Arithmetic.total ((List.range ranks).map fun rank =>
    chainSquare (widths rank) n diagonal coupling rhs x (partition n rank ranks))

/-- All ranks stand before the same iteration, with the same global values. -/
structure Abreast (μ : Type) (widths : Nat → BlockWidth) (n ranks : Nat) (diagonal coupling : α)
    (rhs : Array α) (residuals : Nat → α) (x : Array α) (t left : Nat)
    (programs : List (Collective α (Except (Failure α) (Outcome α × Array α)))) : Prop where
  length : programs.length = ranks
  standing : ∀ rank program, programs[rank]? = some program →
    Standing μ (partShare (widths rank) n diagonal coupling rhs rank ranks) residuals
      (slice n rank ranks x) t left program

omit [Arithmetic α] [SquareRoot α] [SignedZeros α] in
theorem cut_of_listed (fits : ranks ≤ n) (length : programs.length = ranks) {rank : Nat}
    {program : Collective α (Except (Failure α) (Outcome α × Array α))}
    (found : programs[rank]? = some program) : Cut n rank ranks :=
  ⟨length ▸ (List.getElem?_eq_some_iff.mp found).1, fits⟩

/-- An iteration of a rank: it sends its boundary rows, and if it is sent its neighbors',
it has its rows of the next values. -/
theorem standing_exchange {rank : Nat} (cut : Cut n rank ranks) (xSize : x.size = n)
    (rhsSize : rhs.size = n) (limit : t + left < Solver.iterationLimit) {width : BlockWidth}
    {program : Collective α (Except (Failure α) (Outcome α × Array α))}
    (standing : Standing μ (partShare width n diagonal coupling rhs rank ranks) residuals
      (slice n rank ranks x) t (left + 1) program) :
    ∃ ghost exchanged, program = .exchange (Part.of n rank ranks).neighbors (slice n rank ranks x)
        ghost exchanged ∧
      (Part.of n rank ranks).hasLeft.toNat + (Part.of n rank ranks).hasRight.toNat ≤ ghost.size ∧
      ∀ filled, filled.size = ghost.size →
        Sees n rank ranks x (slice n rank ranks x ++ filled) →
        ∃ summed, exchanged (.ok (), filled) =
            .sum (chainSquare width n diagonal coupling rhs x (partition n rank ranks)) summed ∧
          ∀ total, SquareRoot.root total = residuals (t + 1) →
            (left = 0 → ∃ outcome : Outcome α, outcome.iterations = t + 1 ∧ summed total =
              .done (.ok (outcome, slice n rank ranks (chainNext n diagonal coupling rhs x)))) ∧
            (left ≠ 0 → Standing μ (partShare width n diagonal coupling rhs rank ranks) residuals
              (slice n rank ranks (chainNext n diagonal coupling rhs x)) (t + 1) left
              (summed total)) := by
  have size := size_slice cut xSize
  obtain ⟨ghost, exchanged, shape, room, behind⟩ := standing.exchanges rfl rfl rfl rfl
    (size.trans (Nat.mul_one _).symm) limit
  rw [halo_neighbors] at shape
  have room' : (Part.of n rank ranks).columns * 1 ≤ (slice n rank ranks x).size + ghost.size := room
  refine ⟨ghost, exchanged, shape, ?_, fun filled filledSize sees => ?_⟩
  · unfold Part.columns at room'
    omega
  · have long : (Part.of n rank ranks).columns ≤ (slice n rank ranks x ++ filled).size := by
      rw [Array.size_append]
      omega
    have next := next_part cut diagonal coupling xSize rhsSize long sees
    obtain ⟨summed, called, judged⟩ := behind filled filledSize
    rw [part_share_square cut width diagonal coupling xSize rhsSize long sees] at called
    exact ⟨summed, called, next ▸ judged⟩

theorem Abreast.matched (fits : ranks ≤ n) (xSize : x.size = n) (rhsSize : rhs.size = n)
    (limit : t + left < Solver.iterationLimit)
    (abreast : Abreast μ widths n ranks diagonal coupling rhs residuals x t (left + 1) programs) :
    Group.Matched programs := by
  intro rank program found
  have cut := cut_of_listed fits abreast.length found
  obtain ⟨ghost, exchanged, shape, room, _⟩ :=
    standing_exchange cut xSize rhsSize limit (abreast.standing rank program found)
  refine ⟨_, _, ghost, exchanged, shape, neighbors_distinct, ?_, ?_, neighbors_apart, ?_⟩
  · rw [size_slice cut xSize]
    exact sent_lt cut.owned_pos
  · intro neighbor listed
    rcases mem_neighbors.mp listed with ⟨some, rfl⟩ | ⟨more, rfl⟩
    · have here : (Part.of n rank ranks).hasLeft = true := decide_eq_true some
      rw [here] at room
      exact le_trans (Nat.le_add_right _ _) room
    · have here : (Part.of n rank ranks).hasRight = true := decide_eq_true more
      rw [here] at room
      exact room
  · intro neighbor listed
    obtain ⟨inside, their, member, named, count⟩ := neighbors_back cut.rank listed
    have other := List.getElem?_eq_getElem (abreast.length.symm ▸ inside)
    have cut' := cut_of_listed fits abreast.length other
    obtain ⟨ghost', exchanged', shape', _⟩ :=
      standing_exchange cut' xSize rhsSize limit (abreast.standing _ _ other)
    exact ⟨_, _, ghost', exchanged', other.trans (congrArg some shape'), their, member, named,
      count⟩

theorem Abreast.exchanging (fits : ranks ≤ n) (xSize : x.size = n) (rhsSize : rhs.size = n)
    (limit : t + left < Solver.iterationLimit)
    (abreast : Abreast μ widths n ranks diagonal coupling rhs residuals x t (left + 1) programs)
    {rank : Nat} {neighbors : List Neighbor} {owned ghost : Array α}
    {next : Exchanged α → Collective α (Except (Failure α) (Outcome α × Array α))}
    (found : programs[rank]? = some (.exchange neighbors owned ghost next)) :
    neighbors = (Part.of n rank ranks).neighbors ∧ owned = slice n rank ranks x := by
  have cut := cut_of_listed fits abreast.length found
  obtain ⟨_, _, shape, _⟩ :=
    standing_exchange cut xSize rhsSize limit (abreast.standing rank _ found)
  cases shape
  exact ⟨rfl, rfl⟩

theorem Abreast.sees (fits : ranks ≤ n) (xSize : x.size = n) (rhsSize : rhs.size = n)
    (limit : t + left < Solver.iterationLimit)
    (abreast : Abreast μ widths n ranks diagonal coupling rhs residuals x t (left + 1) programs)
    {rank : Nat} {ghost : Array α}
    {next : Exchanged α → Collective α (Except (Failure α) (Outcome α × Array α))}
    (found : programs[rank]? = some
      (.exchange (Part.of n rank ranks).neighbors (slice n rank ranks x) ghost next)) :
    ∃ filled, filled.size = ghost.size ∧ Sees n rank ranks x (slice n rank ranks x ++ filled) ∧
      Group.proceed programs rank
        (.exchange (Part.of n rank ranks).neighbors (slice n rank ranks x) ghost next) =
          next (.ok (), filled) := by
  have cut := cut_of_listed fits abreast.length found
  have size := size_slice cut xSize
  have returned := Group.returned_proceed
    (.exchange (abreast.matched fits xSize rhsSize limit)) found fun _ same => nomatch same
  generalize Group.proceed programs rank _ = behind at returned ⊢
  cases returned with
  | exchange _ _ _ _ filled filledSize received kept =>
      refine ⟨filled, filledSize, ⟨fun i inside => ?_, fun some => ?_, fun more => ?_⟩, rfl⟩
      · rw [Array.getD_eq_getD_getElem?, Array.getElem?_append_left (size ▸ inside),
          getElem?_slice cut xSize inside, ← Array.getD_eq_getD_getElem?]
      · have left := cut.first_pos_iff.mp some
        obtain ⟨theirs, data, _, _, their, other, member, named, values⟩ :=
          received _ (mem_neighbors.mpr (.inl ⟨left, rfl⟩))
        obtain ⟨rfl, rfl⟩ := abreast.exchanging fits xSize rhsSize limit other
        have cut' : Cut n (rank - 1) ranks := cut_of_listed fits abreast.length other
        have nonempty := cut'.nonempty
        have value := values 0 Nat.one_pos
        -- the row before the rank's first is its left neighbor's last
        have meets : (partition n (rank - 1) ranks).last = (partition n rank ranks).first := by
          rw [partition, partition, Nat.sub_add_cancel left]
        have owned : (Part.of n (rank - 1) ranks).owned =
            (partition n (rank - 1) ranks).last - (partition n (rank - 1) ranks).first := rfl
        rw [left_sends left member named] at value
        change filled[0]? = (slice n (rank - 1) ranks x)[_]? at value
        rw [getElem?_slice cut' xSize (by omega)] at value
        rw [Array.getD_eq_getD_getElem?, Array.getElem?_append_right (by rw [size]; rfl), size,
          Part.leftGhost, Nat.sub_self, value, ← Array.getD_eq_getD_getElem?]
        congr 1
        omega
      · have right := cut.last_lt_iff.mp more
        obtain ⟨theirs, data, _, _, their, other, member, named, values⟩ :=
          received _ (mem_neighbors.mpr (.inr ⟨right, rfl⟩))
        obtain ⟨rfl, rfl⟩ := abreast.exchanging fits xSize rhsSize limit other
        have cut' : Cut n (rank + 1) ranks := cut_of_listed fits abreast.length other
        have value := values 0 Nat.one_pos
        -- the row behind the rank's last is its right neighbor's first, the cut being the same
        rw [right_sends member named] at value
        change filled[_]? = (slice n (rank + 1) ranks x)[0]? at value
        rw [getElem?_slice cut' xSize cut'.owned_pos] at value
        rw [Array.getD_eq_getD_getElem?, Array.getElem?_append_right
          (by rw [size, Part.rightGhost]; omega), size, Part.rightGhost, Nat.add_sub_cancel_left,
          ← Nat.add_zero (Part.of n rank ranks).hasLeft.toNat, value,
          ← Array.getD_eq_getD_getElem?]
        rfl

theorem Abreast.sums (fits : ranks ≤ n) (xSize : x.size = n) (rhsSize : rhs.size = n)
    (limit : t + left < Solver.iterationLimit)
    (abreast : Abreast μ widths n ranks diagonal coupling rhs residuals x t (left + 1) programs)
    {rank : Nat} (inside : rank < ranks) :
    ∃ summed, (Group.after programs 1)[rank]? = some
        (.sum (chainSquare (widths rank) n diagonal coupling rhs x (partition n rank ranks)) summed) ∧
      ∀ total, SquareRoot.root total = residuals (t + 1) →
        (left = 0 → ∃ outcome : Outcome α, outcome.iterations = t + 1 ∧ summed total =
          .done (.ok (outcome, slice n rank ranks (chainNext n diagonal coupling rhs x)))) ∧
        (left ≠ 0 → Standing μ (partShare (widths rank) n diagonal coupling rhs rank ranks) residuals
          (slice n rank ranks (chainNext n diagonal coupling rhs x)) (t + 1) left (summed total)) := by
  have found := List.getElem?_eq_getElem (abreast.length.symm ▸ inside)
  have cut := cut_of_listed fits abreast.length found
  obtain ⟨ghost, exchanged, shape, _, behind⟩ :=
    standing_exchange cut xSize rhsSize limit (abreast.standing _ _ found)
  rw [shape] at found
  obtain ⟨filled, size, sees, proceeds⟩ := abreast.sees fits xSize rhsSize limit found
  obtain ⟨summed, called, judged⟩ := behind filled size sees
  refine ⟨summed, ?_, judged⟩
  rw [Group.getElem?_after_succ, Group.after, found, Option.map_some, proceeds, called]

/-- What two rounds make of the ranks: all have the next values, or all have ended with
them. -/
theorem Abreast.round (fits : ranks ≤ n) (xSize : x.size = n) (rhsSize : rhs.size = n)
    (limit : t + left < Solver.iterationLimit)
    (shown : SquareRoot.root (ranksSquare widths n ranks diagonal coupling rhs x) =
      residuals (t + 1))
    (abreast : Abreast μ widths n ranks diagonal coupling rhs residuals x t (left + 1) programs) :
    (∀ program ∈ Group.after programs 1, ∃ value next, program = .sum value next) ∧
      (left = 0 → ∀ rank, rank < ranks → ∃ outcome : Outcome α, outcome.iterations = t + 1 ∧
        (Group.after programs 2)[rank]? = some (.done (.ok (outcome,
          slice n rank ranks (chainNext n diagonal coupling rhs x))))) ∧
      (left ≠ 0 → Abreast μ widths n ranks diagonal coupling rhs residuals
        (chainNext n diagonal coupling rhs x) (t + 1) left (Group.after programs 2)) := by
  have length := (Group.length_after programs 1).trans abreast.length
  have sums := fun {rank : Nat} (inside : rank < ranks) =>
    abreast.sums fits xSize rhsSize limit inside
  have addends : (Group.after programs 1).map Group.addend = (List.range ranks).map fun rank =>
      chainSquare (widths rank) n diagonal coupling rhs x (partition n rank ranks) := by
    apply List.ext_getElem?
    intro rank
    by_cases inside : rank < ranks
    · obtain ⟨summed, listed, _⟩ := sums inside
      simp [listed, inside, Group.addend]
    · simp [abreast.length, inside]
  have second : ∀ rank, rank < ranks → ∀ value summed,
      (Group.after programs 1)[rank]? = some (.sum value summed) →
        (Group.after programs 2)[rank]? =
          some (summed (ranksSquare widths n ranks diagonal coupling rhs x)) := by
    intro rank inside value summed listed
    rw [Group.getElem?_after_succ, listed, ranksSquare, ← addends]
    rfl
  refine ⟨fun program member => ?_, fun final rank inside => ?_, fun more => ?_⟩
  · obtain ⟨rank, found⟩ := List.mem_iff_getElem?.mp member
    obtain ⟨summed, listed, _⟩ := sums (length ▸ (List.getElem?_eq_some_iff.mp found).1)
    exact ⟨_, summed, Option.some.inj (found.symm.trans listed)⟩
  · obtain ⟨summed, listed, judged⟩ := sums inside
    obtain ⟨outcome, count, done⟩ := (judged _ shown).1 final
    exact ⟨outcome, count, (second rank inside _ summed listed).trans (congrArg some done)⟩
  · refine ⟨(Group.length_after programs 2).trans abreast.length, fun rank program found => ?_⟩
    have inside : rank < ranks := by
      simpa [abreast.length] using (List.getElem?_eq_some_iff.mp found).1
    obtain ⟨summed, listed, judged⟩ := sums inside
    have same := Option.some.inj (found.symm.trans (second rank inside _ summed listed))
    exact same ▸ (judged _ shown).2 more

end Rounds

end Relaxation.Model

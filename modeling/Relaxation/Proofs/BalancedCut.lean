import Mathlib.Algebra.Order.Floor.Div
import Relaxation.Proofs.ChainRows

/-!
The cut of a chain over its ranks. The parts follow each other without a gap, and their lengths
differ by one row at most. With fewer rows than ranks it is always the first rank that has none.
-/

namespace Relaxation.Model

variable {n rank ranks : Nat}

def RowRange.rows (range : RowRange) : List Nat :=
  List.range' range.first range.length

/-- The parts of a chain, one behind the other. -/
structure Tiles (n ranks : Nat) : Prop where
  start : (partition n 0 ranks).first = 0
  follows : ∀ rank, rank + 1 < ranks →
    (partition n (rank + 1) ranks).first = (partition n rank ranks).last
  finish : (partition n (ranks - 1) ranks).last = n
  ascending : ∀ rank, rank < ranks → (partition n rank ranks).first ≤ (partition n rank ranks).last
  rows : ((List.range ranks).flatMap fun rank => (partition n rank ranks).rows) = List.range n

theorem first_zero (n ranks : Nat) : (partition n 0 ranks).first = 0 := by
  simp [partition]

theorem first_le_last (n rank ranks : Nat) :
    (partition n rank ranks).first ≤ (partition n rank ranks).last :=
  Nat.div_le_div_right (Nat.mul_le_mul_right n (Nat.le_succ rank))

theorem last_whole (n : Nat) (some : 0 < ranks) : (partition n (ranks - 1) ranks).last = n := by
  change (ranks - 1 + 1) * n / ranks = n
  rw [Nat.sub_add_cancel some, Nat.mul_div_cancel_left n some]

theorem rows_before (n rank ranks : Nat) :
    ((List.range rank).flatMap fun before => (partition n before ranks).rows) =
      List.range (partition n rank ranks).first := by
  induction rank with
  | zero => rw [first_zero, List.range_zero, List.flatMap_nil]
  | succ rank ih =>
      have order := first_le_last n rank ranks
      have next : (partition n (rank + 1) ranks).first = (partition n rank ranks).first +
          (partition n rank ranks).length := (Nat.add_sub_cancel' order).symm
      rw [List.range_succ, List.flatMap_append, ih, List.flatMap_singleton, next, List.range_add,
        RowRange.rows, List.range'_eq_map_range]

theorem tiles (n : Nat) (some : 0 < ranks) : Tiles n ranks where
  start := first_zero n ranks
  follows _ _ := rfl
  finish := last_whole n some
  ascending rank _ := first_le_last n rank ranks
  rows := by
    have whole : (partition n ranks ranks).first = n := Nat.mul_div_cancel_left n some
    rw [rows_before, whole]

theorem ceil_div_of_mod_pos (some : 0 < ranks) (left : 0 < n % ranks) :
    n ⌈/⌉ ranks = n / ranks + 1 := by
  have split := Nat.div_add_mod n ranks
  have small := Nat.mod_lt n some
  apply Nat.le_antisymm
  · rw [ceilDiv_le_iff_le_mul some, Nat.mul_succ]
    omega
  · rw [Nat.succ_le_iff, ← not_le, ceilDiv_le_iff_le_mul some]
    omega

theorem length_partition (n rank : Nat) (some : 0 < ranks) :
    (partition n rank ranks).length = n / ranks ∨
      (partition n rank ranks).length = n ⌈/⌉ ranks := by
  have last : (partition n rank ranks).last = (partition n rank ranks).first + n / ranks +
      if ranks ≤ rank * n % ranks + n % ranks then 1 else 0 := by
    change (rank + 1) * n / ranks = _
    rw [Nat.succ_mul, Nat.add_div some]
    rfl
  unfold RowRange.length
  by_cases carry : ranks ≤ rank * n % ranks + n % ranks
  · have small := Nat.mod_lt (rank * n) some
    rw [ceil_div_of_mod_pos some (by omega), last, if_pos carry, Nat.add_assoc,
      Nat.add_sub_cancel_left]
    exact .inr rfl
  · rw [last, if_neg carry, Nat.add_zero, Nat.add_sub_cancel_left]
    exact .inl rfl

theorem length_first_rank (n ranks : Nat) : (partition n 0 ranks).length = n / ranks := by
  rw [RowRange.length, first_zero, partition, Nat.zero_add, Nat.one_mul, Nat.sub_zero]

variable {α : Type} [Arithmetic α]

theorem chain_part_of_empty (diagonal coupling : α) {communicator : Communicator}
    (empty : (partition n communicator.rank communicator.ranks).length = 0) :
    chainPart n diagonal coupling communicator =
      .error (.refused (.emptyRank communicator.rank n communicator.ranks)) := by
  have none : (Part.of n communicator.rank communicator.ranks).owned = 0 := empty
  unfold chainPart
  dsimp only
  rw [if_pos none]
  rfl

/-- The parts of a chain follow each other from its first row to its last, each as long as a fair
share rounded down or up. Every rank has rows just when there are no more ranks than rows;
otherwise the first rank has none, and is refused. -/
theorem parts_tile_evenly (n : Nat) (some : 0 < ranks) :
    Tiles n ranks ∧
    (∀ rank, rank < ranks → (partition n rank ranks).length = n / ranks ∨
      (partition n rank ranks).length = n ⌈/⌉ ranks) ∧
    ((∀ rank, rank < ranks → 0 < (partition n rank ranks).length) ↔ ranks ≤ n) ∧
    (n < ranks → (partition n 0 ranks).length = 0 ∧
      ∀ (diagonal coupling : α) (communicator : Communicator), communicator.rank = 0 →
        communicator.ranks = ranks → chainPart n diagonal coupling communicator =
          .error (.refused (.emptyRank 0 n ranks))) := by
  refine ⟨tiles n some, fun rank _ => length_partition n rank some,
    ⟨fun nonempty => ?_, fun enough rank inside => ?_⟩, fun scarce => ?_⟩
  · have first := nonempty 0 some
    rw [length_first_rank, Nat.div_pos_iff] at first
    exact first.2
  · have cut : Cut n rank ranks := ⟨inside, enough⟩
    exact Nat.sub_pos_of_lt cut.nonempty
  · have empty : (partition n 0 ranks).length = 0 :=
      (length_first_rank n ranks).trans (Nat.div_eq_of_lt scarce)
    refine ⟨empty, fun diagonal coupling communicator first group => ?_⟩
    have refused := @chain_part_of_empty n α _ diagonal coupling communicator
    rw [first, group] at refused
    exact refused empty

/-- Of two rows the first of three ranks gets none, and the others one each. -/
theorem two_rows_three_ranks :
    ((List.range 3).flatMap fun rank => (partition 2 rank 3).rows) = [0, 1] ∧
      (partition 2 0 3).length = 0 ∧
      chainPart 2 (2.5 : Float) (-1) (.member 0 3) = .error (.refused (.emptyRank 0 2 3)) := by
  obtain ⟨tiled, _, _, scarce⟩ := @parts_tile_evenly 3 Float _ 2 (by decide)
  obtain ⟨empty, refused⟩ := scarce (by decide)
  exact ⟨tiled.rows, empty, refused 2.5 (-1) (.member 0 3) rfl rfl⟩

example : (List.range 3).map (partition 10 · 3) = [⟨0, 3⟩, ⟨3, 6⟩, ⟨6, 10⟩] := by decide

end Relaxation.Model

import Relaxation.Proofs.BlockOrder
import Relaxation.Proofs.Exact
import Relaxation.Proofs.Sweep

/-!
Both levels of a reduction behind a launch. A thread block adds up its own rows, and the second
level adds up the blocks. The blocks share the rows out among them, so that each row is in the sum
once, however wide a block is and however few rows are left for the last one.
-/

namespace Relaxation.Launch

variable {α : Type} [Arithmetic α]

theorem reached_cover (rows : Nat) {threads : Nat} (positive : 0 < threads) :
    reached (.cover rows threads) rows = rows := by
  refine Nat.min_eq_left (Nat.not_lt.mp fun beyond => ?_)
  -- the first row without a thread would lie in a block
  have block := row_in_cover rows positive beyond
  rw [Geometry.cover, Nat.mul_div_cancel _ positive] at block
  exact Nat.lt_irrefl _ block

theorem reduce_launched {kernel : Kernel} {geometry : Geometry} {rows : Nat} {sources : Sources α}
    {old new : Workspace α} (launched : Launched kernel geometry rows sources old new)
    (width : Reduction.validWidth geometry.threadsPerBlock = true)
    (partialsLong : geometry.blocks ≤ old.partials.size) :
    Reduction.reducePartials (new.partials.extract 0 geometry.blocks) geometry.threadsPerBlock =
      .ok (levels geometry rows fun row =>
        (kernel.rowUpdate sources old.iterate old.previous row).square) := by
  have partials := launched.partials_eq partialsLong
  rw [launched.partialsSize, Nat.min_eq_left partialsLong] at partials
  rw [Reduction.reduce_partials_total _ width, partials, partials_total_eq]

section Sums

variable [AddLaws α] {threads : Nat} (valid : Reduction.validWidth threads = true)
  (rows : Nat) (added : Nat → α)

local instance exactAddition : AddCommMonoid α := AddLaws.monoid α

include valid

theorem block_total_rows (block : Nat) :
    Reduction.blockTotal ((List.range threads).map fun thread =>
      if block * threads + thread < rows then added (block * threads + thread) else 0).toArray =
      ((blockRows threads rows block).map added).sum := by
  rw [Reduction.block_total_sum (by simpa using valid), List.toList_toArray,
    threads_past_rows added rfl, List.sum_append, List.sum_replicate, smul_zero, add_zero,
    blockRows, List.range'_eq_map_range, List.map_map]
  rfl

theorem levels_total :
    levels (.cover rows threads) rows added = ((List.range rows).map added).sum := by
  have wide := Reduction.valid_width_le valid
  -- a thread block without rows is not reduced, and has no row to add
  have reduced : ∀ block, (if block * threads < rows then
      Reduction.blockTotal ((List.range threads).map fun thread =>
        if block * threads + thread < rows then added (block * threads + thread) else 0).toArray
      else 0) = ((blockRows threads rows block).map added).sum := by
    intro block
    split
    case isTrue some => exact block_total_rows valid rows added block
    case isFalse none =>
      rw [blockRows, Nat.sub_eq_zero_of_le (Nat.not_lt.mp none), Nat.min_zero, List.range'_zero]
      rfl
  calc levels (.cover rows threads) rows added
      = ((List.range (Geometry.cover rows threads).blocks).map fun block =>
          ((blockRows threads rows block).map added).sum).sum := by
        refine (Reduction.partials_total_sum _ valid).trans ?_
        exact congrArg List.sum (List.map_congr_left fun block _ => reduced block)
    _ = (((List.range (Geometry.cover rows threads).blocks).flatMap
          (blockRows threads rows)).map added).sum := by
        rw [List.map_flatMap, List.flatMap_def, List.sum_flatten, List.map_map]
        rfl
    _ = ((List.range (reached (.cover rows threads) rows)).map added).sum := by
        rw [rows_of_blocks]
        rfl
    _ = ((List.range rows).map added).sum := by rw [reached_cover rows (by omega)]

end Sums

/-- However many threads a block has, it adds its values as plain recursive halving does, addition
by addition. Where addition is that of a commutative monoid, whatever the other operations are, the
second level has the sum of all partials, each counted once, and behind a launch it has the sum of
what the rows add. -/
theorem every_row_summed_once {threads : Nat} (power : ∃ doublings, threads = 2 ^ doublings)
    (wide : 64 ≤ threads) :
    (∀ scratch : Array α, scratch.size = threads → ∃ finished,
      Reduction.blockReduce scratch = .ok (Reduction.halvingTotal scratch.toList, finished)) ∧
    ∀ [AddLaws α],
      (∀ partials : Array α,
        Reduction.reducePartials partials threads = .ok partials.toList.sum) ∧
      ∀ (kernel : Kernel) (rows : Nat) (sources : Sources α) (old : Workspace α),
        1 ≤ kernel.blockSize → kernel.blockSize ≤ 9 →
        Room kernel (.cover rows threads) rows sources old →
        ∃ new, fusedRelax kernel (.cover rows threads) rows sources old = (.ok (), new) ∧
          Reduction.reducePartials
            (new.partials.extract 0 (Geometry.cover rows threads).blocks) threads =
              .ok ((List.range rows).map fun row => (kernel.updateAt sources old row).square).sum := by
  have valid := Reduction.valid_width_of_power power wide
  refine ⟨fun scratch size => ?_, fun {laws} => ⟨fun partials => ?_,
    fun kernel rows sources old one small room => ?_⟩⟩
  · have width : Reduction.validWidth scratch.size = true := by rwa [size]
    obtain ⟨finished, ran⟩ := Reduction.block_reduce_total scratch width
    exact ⟨finished, by rw [ran, Reduction.block_total_halving scratch width]⟩
  · rw [Reduction.reduce_partials_total partials valid, Reduction.partials_total_sum partials valid]
  · have fits := room.fits one small valid
    rw [reached_cover rows (by omega)] at fits
    obtain ⟨new, ran, launched⟩ := fused_relax_run fits room.partials
    refine ⟨new, ran, (reduce_launched launched valid room.partials).trans ?_⟩
    have update : ∀ row ∈ List.range rows,
        (kernel.rowUpdate sources old.iterate old.previous row).square =
          (kernel.updateAt sources old row).square := fun row member =>
      congrArg RowUpdate.square (Kernel.row_update_eq_update_at fits.covered
        (List.mem_range.mp member) fits.iterateLong fits.previousLong)
    rw [levels_total valid, List.map_congr_left update]

/-- Rounded values are halved. Of 70 exact rows that all add something else, the last six are in a
block of their own. -/
theorem seventy_rows_in_two_blocks :
    let sources : Sources ℚ :=
      ⟨.replicate 70 2, .replicate 70 (1 / 2), (Array.range 70).map Nat.cast⟩
    let old : Workspace ℚ := ⟨.replicate 70 0, .replicate 70 0, #[7, 7, 7]⟩
    (∃ finished, Reduction.blockReduce (.replicate 64 (0.1 : Float)) =
      .ok (Reduction.halvingTotal (.replicate 64 0.1), finished)) ∧
    Reduction.reducePartials ((Array.range 100).map Nat.cast : Array ℚ) 64 = .ok 4950 ∧
    Room .scalar (.cover 70 64) 70 sources old ∧
    ∃ new, fusedRelax .scalar (.cover 70 64) 70 sources old = (.ok (), new) ∧
      Reduction.reducePartials (new.partials.extract 0 2) 64 = .ok 111895 := by
  intro sources old
  have room : Room .scalar (.cover 70 64) 70 sources old :=
    ⟨by simp [sources, reached, Geometry.cover, Kernel.blockSize],
      by simp [sources, reached, Geometry.cover, Kernel.inverseLength],
      by simp [sources, reached, Geometry.cover, Kernel.blockSize],
      by simp [old, Kernel.blockSize], by simp [old, Kernel.blockSize],
      by simp [old, Geometry.cover]⟩
  have power : ∃ doublings, 64 = 2 ^ doublings := ⟨6, rfl⟩
  obtain ⟨finished, halved⟩ := (every_row_summed_once power (le_refl 64)).1
    (.replicate 64 (0.1 : Float)) (by simp)
  obtain ⟨partials, launches⟩ := (every_row_summed_once (α := ℚ) power (le_refl 64)).2
  obtain ⟨new, ran, total⟩ := launches .scalar 70 sources old (by decide) (by decide) room
  refine ⟨⟨finished, ?_⟩, ?_, room, new, ran, ?_⟩
  · rw [halved, Array.toList_replicate]
  · rw [partials]
    decide +kernel
  · refine total.trans ?_
    decide +kernel

end Relaxation.Launch

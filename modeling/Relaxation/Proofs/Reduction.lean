import Mathlib
import Relaxation.Reduction

/-!
A reduction of a valid width always answers, and its additions are those of plain
recursive halving, one by one. Where addition is that of a commutative monoid the
answer is the plain sum, so that every value is counted once, whatever the width.
-/

namespace Relaxation

class AddLaws (α : Type) [Arithmetic α] : Prop where
  add_comm : ∀ a b : α, a + b = b + a
  add_assoc : ∀ a b c : α, a + b + c = a + (b + c)
  zero_add : ∀ a : α, 0 + a = a

abbrev AddLaws.monoid (α : Type) [Arithmetic α] [AddLaws α] : AddCommMonoid α where
  toAdd := Arithmetic.toAdd
  toZero := Arithmetic.toZero
  add_assoc := AddLaws.add_assoc
  zero_add := AddLaws.zero_add
  add_zero a := (AddLaws.add_comm a 0).trans (AddLaws.zero_add a)
  add_comm := AddLaws.add_comm
  nsmul := nsmulRec

namespace Reduction

variable {α : Type} [Arithmetic α]

theorem size_of_tree_step {scratch stepped : Array α} {offset : Nat}
    (ran : treeStep scratch offset = .ok stepped) : stepped.size = scratch.size := by
  unfold treeStep at ran
  split at ran
  · cases ran
    simp
  · cases ran

theorem tree_step_succeeds (scratch : Array α) (offset : Nat)
    (inside : 2 * offset ≤ scratch.size) : ∃ stepped, treeStep scratch offset = .ok stepped := by
  exact ⟨_, by unfold treeStep; rw [dif_pos inside]⟩

theorem getElem?_tree_step {scratch stepped : Array α} {offset index : Nat}
    (ran : treeStep scratch offset = .ok stepped) (low : index < offset)
    (inside : index + offset < scratch.size) :
    stepped[index]? = some (scratch[index] + scratch[index + offset]) := by
  unfold treeStep at ran
  split at ran
  · cases ran
    have bound : index < scratch.size := by omega
    simp [bound, low]
  · cases ran

theorem warp_steps_succeed (offsets : List Nat) (scratch : Array α)
    (inside : ∀ offset ∈ offsets, 2 * offset ≤ scratch.size) :
    ∃ finished, offsets.foldlM treeStep scratch = .ok finished ∧
      finished.size = scratch.size := by
  induction offsets generalizing scratch with
  | nil => exact ⟨scratch, rfl, rfl⟩
  | cons offset rest ih =>
      obtain ⟨stepped, ran⟩ := tree_step_succeeds scratch offset (inside offset List.mem_cons_self)
      have size := size_of_tree_step ran
      obtain ⟨finished, later, kept⟩ := ih stepped fun other member => by
        rw [size]
        exact inside other (List.mem_cons_of_mem offset member)
      refine ⟨finished, ?_, kept.trans size⟩
      rw [List.foldlM_cons, ran]
      exact later

theorem warp_tail_succeeds (scratch : Array α) (wide : 64 ≤ scratch.size) :
    ∃ finished, warpTail scratch = .ok finished ∧ finished.size = scratch.size := by
  apply warp_steps_succeed
  intro offset member
  simp only [List.mem_cons, List.not_mem_nil, or_false] at member
  omega

theorem halve_succeeds (stride : Nat) (scratch : Array α) (inside : 2 * stride ≤ scratch.size) :
    ∃ finished, halve stride scratch = .ok finished ∧ finished.size = scratch.size := by
  induction stride using Nat.strongRecOn generalizing scratch with
  | ind stride ih =>
      unfold halve
      split
      case isTrue wide =>
        simp only [warpSize] at wide
        obtain ⟨stepped, ran⟩ := tree_step_succeeds _ _ inside
        have size := size_of_tree_step ran
        obtain ⟨finished, later, kept⟩ := ih (stride / 2) (by omega) stepped (by omega)
        refine ⟨finished, ?_, kept.trans size⟩
        rw [ran]
        exact later
      case isFalse narrow => exact ⟨scratch, rfl, rfl⟩

theorem valid_width_le {width : Nat} (valid : validWidth width = true) : 64 ≤ width := by
  unfold validWidth at valid
  exact of_decide_eq_true (Bool.and_eq_true_iff.mp valid).2

theorem valid_width_of_power {width : Nat} (power : ∃ doublings, width = 2 ^ doublings)
    (wide : 64 ≤ width) : validWidth width = true := by
  obtain ⟨doublings, rfl⟩ := power
  have exact : isPowerOfTwo (2 ^ doublings) = true := by
    unfold isPowerOfTwo
    rw [Nat.log2_two_pow]
    exact beq_self_eq_true _
  exact Bool.and_eq_true_iff.mpr ⟨exact, decide_eq_true wide⟩

theorem valid_width_power {width : Nat} (valid : validWidth width = true) :
    ∃ doublings, width = 64 * 2 ^ doublings := by
  have wide := valid_width_le valid
  unfold validWidth at valid
  have power : width = 2 ^ width.log2 := beq_iff_eq.mp (Bool.and_eq_true_iff.mp valid).1
  have atLeast : 6 ≤ width.log2 := (Nat.le_log2 (by omega)).mpr (by omega)
  refine ⟨width.log2 - 6, ?_⟩
  calc width = 2 ^ (6 + (width.log2 - 6)) := by
        rw [Nat.add_sub_cancel' atLeast]
        exact power
    _ = 64 * 2 ^ (width.log2 - 6) := by rw [Nat.pow_add]

theorem block_reduce_succeeds {scratch : Array α} (valid : validWidth scratch.size = true) :
    ∃ answer, blockReduce scratch = .ok answer := by
  have wide := valid_width_le valid
  obtain ⟨halved, first, halvedSize⟩ := halve_succeeds (scratch.size / 2) scratch (by omega)
  obtain ⟨finished, second, finishedSize⟩ := warp_tail_succeeds halved (by omega)
  have found : finished[0]? = some finished[0] := Array.getElem?_eq_getElem (by omega)
  refine ⟨(finished[0], finished), ?_⟩
  unfold blockReduce
  rw [if_pos valid, first]
  simp only [bind, Except.bind, second, found]

def blockTotal (scratch : Array α) : α :=
  match blockReduce scratch with
  | .ok (total, _) => total
  | .error _ => 0

theorem block_reduce_total (scratch : Array α) (valid : validWidth scratch.size = true) :
    ∃ finished, blockReduce scratch = .ok (blockTotal scratch, finished) := by
  obtain ⟨⟨total, finished⟩, ran⟩ := block_reduce_succeeds valid
  exact ⟨finished, by simp only [blockTotal, ran]⟩

def partialsTotal (values : Array α) (threads : Nat) : α :=
  blockTotal ((Array.range threads).map (strideSum values threads))

theorem reduce_partials_total {threads : Nat} (values : Array α)
    (valid : validWidth threads = true) :
    reducePartials values threads = .ok (partialsTotal values threads) := by
  obtain ⟨finished, ran⟩ := block_reduce_total
    ((Array.range threads).map (strideSum values threads)) (by simpa using valid)
  simp only [reducePartials, ran]
  rfl

/-- Plain recursive halving: one value is its own total, and more have that of their first half with
the second half added to it, place by place. -/
def halvingTotal (values : List α) : α :=
  if 1 < values.length then
    halvingTotal (List.zipWith (· + ·) (values.take (values.length / 2))
      (values.drop (values.length / 2)))
  else values.headD 0
termination_by values.length
decreasing_by
  rw [List.length_zipWith, List.length_take, List.length_drop]
  omega

theorem halving_total_single (value : α) : halvingTotal [value] = value := by
  rw [halvingTotal]
  rfl

theorem halving_total_append {low high : List α} (same : low.length = high.length)
    (some : 0 < low.length) :
    halvingTotal (low ++ high) = halvingTotal (List.zipWith (· + ·) low high) := by
  have length : (low ++ high).length = low.length + low.length := by
    rw [List.length_append, same]
  have half : (low ++ high).length / 2 = low.length := by omega
  rw [halvingTotal, if_pos (by omega), half, List.take_left, List.drop_left]

/-- A tree step leaves the sums of the two halves in front. What is behind them is stale, and no
later step reads it. -/
theorem take_tree_step {scratch stepped : Array α} {offset : Nat}
    (ran : treeStep scratch offset = .ok stepped) (inside : 2 * offset ≤ scratch.size) :
    stepped.toList.take offset = List.zipWith (· + ·) (scratch.toList.take offset)
      ((scratch.toList.drop offset).take offset) := by
  apply List.ext_getElem?
  intro index
  rw [List.getElem?_zipWith, List.getElem?_take, List.getElem?_take, List.getElem?_take]
  by_cases low : index < offset
  · have first : index < scratch.size := by omega
    have second : offset + index < scratch.size := by omega
    have value := getElem?_tree_step ran low (by omega)
    simp [low, value, first, second, Nat.add_comm index offset]
  · simp [low]

theorem halving_tree_step {scratch stepped : Array α} {offset : Nat}
    (ran : treeStep scratch offset = .ok stepped) (some : 0 < offset)
    (inside : 2 * offset ≤ scratch.size) :
    halvingTotal (stepped.toList.take offset) = halvingTotal (scratch.toList.take (2 * offset)) := by
  have low : (scratch.toList.take offset).length = offset := by
    rw [List.length_take, Array.length_toList]
    omega
  have high : ((scratch.toList.drop offset).take offset).length = offset := by
    rw [List.length_take, List.length_drop, Array.length_toList]
    omega
  rw [Nat.two_mul, List.take_add, halving_total_append (low.trans high.symm) (by omega),
    take_tree_step ran inside]

def offsets : Nat → List Nat
  | 0 => []
  | doublings + 1 => 2 ^ doublings :: offsets doublings

/-- The loop hands over to the tail at two warps, so that both together are one run of tree
steps. -/
theorem halve_then_tail (doublings : Nat) (scratch : Array α) :
    (do warpTail (← halve (32 * 2 ^ doublings) scratch)) =
      (offsets (doublings + 6)).foldlM treeStep scratch := by
  induction doublings generalizing scratch with
  | zero =>
      unfold halve
      rfl
  | succ doublings ih =>
      have positive := Nat.two_pow_pos doublings
      have stride : 32 * 2 ^ (doublings + 1) = 2 ^ (doublings + 6) := by
        rw [Nat.pow_add, Nat.pow_add]
        omega
      have half : 2 ^ (doublings + 6) / 2 = 32 * 2 ^ doublings := by omega
      unfold halve
      rw [if_pos (by rw [warpSize]; omega), stride, half, Nat.add_right_comm, offsets,
        List.foldlM_cons]
      cases treeStep scratch (2 ^ (doublings + 6)) with
      | ok stepped => exact ih stepped
      | error fault => rfl

/-- Every step keeps the total of the values that are still live, and the last one leaves one. -/
theorem halving_steps (doublings : Nat) {scratch finished : Array α}
    (ran : (offsets doublings).foldlM treeStep scratch = .ok finished)
    (inside : 2 ^ doublings ≤ scratch.size) :
    halvingTotal (finished.toList.take 1) = halvingTotal (scratch.toList.take (2 ^ doublings)) := by
  induction doublings generalizing scratch with
  | zero =>
      cases ran
      rfl
  | succ doublings ih =>
      have positive := Nat.two_pow_pos doublings
      rw [Nat.pow_succ'] at inside
      obtain ⟨stepped, first⟩ := tree_step_succeeds scratch (2 ^ doublings) inside
      have size := size_of_tree_step first
      rw [offsets, List.foldlM_cons, first] at ran
      rw [ih ran (by omega), halving_tree_step first positive inside, Nat.pow_succ']

theorem block_total_halving (scratch : Array α) (valid : validWidth scratch.size = true) :
    blockTotal scratch = halvingTotal scratch.toList := by
  have wide := valid_width_le valid
  obtain ⟨doublings, power⟩ := valid_width_power valid
  have whole : scratch.size = 2 ^ (doublings + 6) := by
    rw [power, Nat.pow_add, Nat.mul_comm]
  have half : scratch.size / 2 = 32 * 2 ^ doublings := by omega
  obtain ⟨halved, first, halvedSize⟩ := halve_succeeds (scratch.size / 2) scratch (by omega)
  obtain ⟨finished, second, finishedSize⟩ := warp_tail_succeeds halved (by omega)
  have found : finished[0]? = some finished[0] := Array.getElem?_eq_getElem (by omega)
  have total : blockTotal scratch = finished[0] := by
    simp only [blockTotal, blockReduce, if_pos valid, first, bind, Except.bind, second, found]
  have last : finished.toList.take 1 = [finished[0]] := by
    rw [List.take_one, List.head?_eq_getElem?, Array.getElem?_toList, found]
    rfl
  have ran : (do warpTail (← halve (32 * 2 ^ doublings) scratch)) = .ok finished := by
    rw [← half, first]
    exact second
  rw [halve_then_tail] at ran
  calc blockTotal scratch = halvingTotal (finished.toList.take 1) := by
        rw [total, last, halving_total_single]
    _ = halvingTotal (scratch.toList.take (2 ^ (doublings + 6))) :=
        halving_steps (doublings + 6) ran (le_of_eq whole.symm)
    _ = halvingTotal scratch.toList := by
        rw [← whole, ← Array.length_toList, List.take_length]

section Sums

variable [AddLaws α]

local instance addCommMonoid : AddCommMonoid α := AddLaws.monoid α

theorem halving_total_sum (doublings : Nat) {values : List α}
    (length : values.length = 2 ^ doublings) : halvingTotal values = values.sum := by
  induction doublings generalizing values with
  | zero =>
      obtain ⟨value, rfl⟩ := List.length_eq_one_iff.mp length
      rw [halving_total_single, List.sum_singleton]
  | succ doublings ih =>
      have positive := Nat.two_pow_pos doublings
      rw [Nat.pow_succ'] at length
      have low : (values.take (2 ^ doublings)).length = 2 ^ doublings := by
        rw [List.length_take]
        omega
      have high : (values.drop (2 ^ doublings)).length = 2 ^ doublings := by
        rw [List.length_drop]
        omega
      have halves := low.trans high.symm
      rw [← List.take_append_drop (2 ^ doublings) values,
        halving_total_append halves (by omega), ih (by rw [List.length_zipWith]; omega),
        List.sum_append, List.sum_add_sum_eq_sum_zipWith_of_length_eq _ _ halves]

theorem block_total_sum {scratch : Array α} (valid : validWidth scratch.size = true) :
    blockTotal scratch = scratch.toList.sum := by
  obtain ⟨doublings, power⟩ := valid_width_power valid
  rw [block_total_halving scratch valid]
  apply halving_total_sum (6 + doublings)
  rw [Array.length_toList, power, Nat.pow_add]

def headSum (values : Array α) (n : Nat) : α :=
  ∑ i ∈ Finset.range n, values.getD i 0

theorem head_sum_beyond (values : Array α) {n : Nat} (beyond : values.size ≤ n) :
    headSum values n = headSum values values.size := by
  unfold headSum
  symm
  apply Finset.sum_subset (Finset.range_mono beyond)
  intro index _ outside
  have past : values.size ≤ index := by simpa using outside
  simp [Array.getD_eq_getD_getElem?, past]

theorem stride_fold (values : Array α) (threads index count : Nat) :
    (List.range' index count threads).foldl
      (fun sum i => match values[i]? with
        | some value => sum + value
        | none => sum) 0 =
      ∑ q ∈ Finset.range count, values.getD (index + threads * q) 0 := by
  induction count with
  | zero => rfl
  | succ count ih =>
      rw [List.range'_concat, List.foldl_append, ih, Finset.sum_range_succ]
      simp only [List.foldl_cons, List.foldl_nil, Array.getD_eq_getD_getElem?]
      cases values[index + threads * count]? with
      | none => simp
      | some value => simp

/-- The values a thread skips lie past the end, so any larger count does. -/
theorem stride_sum_eq (values : Array α) {threads : Nat} (positive : 0 < threads) (index : Nat) :
    strideSum values threads index =
      ∑ q ∈ Finset.range (values.size + threads), values.getD (index + threads * q) 0 := by
  refine (stride_fold values threads index _).trans ?_
  apply Finset.sum_subset
  · apply Finset.range_mono
    exact (Nat.div_le_self _ _).trans (by omega)
  · intro q _ outside
    have skipped : (values.size - index + threads - 1) / threads ≤ q := by simpa using outside
    have reach : values.size - index + threads - 1 < threads * (q + 1) := by
      rw [Nat.mul_comm]
      exact (Nat.div_lt_iff_lt_mul positive).mp (by omega)
    rw [Nat.mul_succ] at reach
    have past : values.size ≤ index + threads * q := by omega
    simp [Array.getD_eq_getD_getElem?, past]

theorem strides_partition (f : Nat → α) (threads count : Nat) :
    ∑ t ∈ Finset.range threads, ∑ q ∈ Finset.range count, f (t + threads * q) =
      ∑ i ∈ Finset.range (threads * count), f i := by
  rw [Finset.sum_comm]
  induction count with
  | zero => simp
  | succ count ih =>
      rw [Finset.sum_range_succ, ih, Nat.mul_succ, Finset.sum_range_add]
      simp only [Nat.add_comm]

theorem partials_total_head_sum {threads : Nat} (values : Array α)
    (valid : validWidth threads = true) :
    partialsTotal values threads = headSum values values.size := by
  have wide := valid_width_le valid
  -- enough rounds of strides to reach past the last value
  have covered : values.size ≤ threads * (values.size + threads) := by
    calc values.size ≤ 1 * (values.size + threads) := by omega
      _ ≤ threads * (values.size + threads) := Nat.mul_le_mul_right _ (by omega)
  calc partialsTotal values threads
      = ∑ t ∈ Finset.range threads, strideSum values threads t := by
        rw [partialsTotal, block_total_sum (by simpa using valid), Array.toList_map,
          Array.toList_range]
        rfl
    _ = ∑ t ∈ Finset.range threads, ∑ q ∈ Finset.range (values.size + threads),
          values.getD (t + threads * q) 0 :=
        Finset.sum_congr rfl fun t _ => stride_sum_eq values (by omega) t
    _ = headSum values (threads * (values.size + threads)) :=
        strides_partition (fun i => values.getD i 0) threads _
    _ = headSum values values.size := head_sum_beyond values covered

theorem head_sum_list (values : Array α) :
    headSum values values.size = values.toList.sum := by
  unfold headSum
  rw [← Array.length_toList]
  generalize same : values.toList = list
  have value : ∀ i, values.getD i 0 = list.getD i 0 := by
    intro i
    rw [Array.getD_eq_getD_getElem?, List.getD_eq_getElem?_getD, ← same, Array.getElem?_toList]
  simp only [value]
  clear value same
  induction list with
  | nil => rfl
  | cons head rest ih =>
      rw [List.length_cons, Finset.sum_range_succ', List.sum_cons, ← ih, AddLaws.add_comm]
      simp

end Sums

variable [AddLaws α]

theorem partials_total_sum {threads : Nat} (values : Array α)
    (valid : validWidth threads = true) :
    partialsTotal values threads = values.toList.sum :=
  (partials_total_head_sum values valid).trans (head_sum_list values)

end Reduction
end Relaxation

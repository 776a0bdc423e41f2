import Mathlib
import Relaxation.Proofs.InverseDiagonal

/-!
Blocks whose diagonal outweighs the rest of every row. Elimination keeps them so, therefore no
pivot is zero and every factorization of a diagonal of such blocks goes through. Their systems
damp: a solution is no larger than the right-hand side over the margin.
-/

namespace Relaxation

namespace Block

variable {n : Nat}

theorem sum_where_split {p q : Fin n → Prop} [DecidablePred p] [DecidablePred q] (a : Fin n)
    (apart : ¬q a) (split : ∀ j, p j ↔ j = a ∨ q j) (f : Fin n → ℚ) :
    (∑ j, if p j then f j else 0) = f a + ∑ j, if q j then f j else 0 := by
  have each : ∀ j, (if p j then f j else 0) =
      (if j = a then f a else 0) + if q j then f j else 0 := by
    intro j
    by_cases same : j = a
    · subst same
      rw [if_pos ((split j).mpr (.inl rfl)), if_pos rfl, if_neg apart, add_zero]
    · have iff : p j ↔ q j := (split j).trans (or_iff_right same)
      simp only [iff, if_neg same, zero_add]
  rw [Finset.sum_congr rfl fun j _ => each j, Finset.sum_add_distrib, Finset.sum_ite_eq',
    if_pos (Finset.mem_univ a)]

/-- Absolute sum of a row beside its diagonal entry, from a column on. -/
def offSum (block : Block ℚ n) (m : Nat) (i : Fin n) : ℚ :=
  ∑ j : Fin n, if m ≤ j.val ∧ j ≠ i then |block.entry i j| else 0

/-- Absolute sum of a row behind a pivot's column, one more column left out. -/
def behind (block : Block ℚ n) (pivot skipped row : Fin n) : ℚ :=
  ∑ j : Fin n, if pivot < j ∧ j ≠ skipped then |block.entry row j| else 0

/-- Strict diagonal dominance of what the first `m` pivots leave. -/
def Dominant (block : Block ℚ n) (m : Nat) : Prop :=
  ∀ i : Fin n, m ≤ i.val → block.offSum m i < |block.entry i i|

theorem off_sum_nonneg (block : Block ℚ n) (m : Nat) (i : Fin n) : 0 ≤ block.offSum m i := by
  apply Finset.sum_nonneg
  intro j _
  split
  · exact abs_nonneg _
  · exact le_refl 0

section Pivot

variable (block : Block ℚ n) {pivot i : Fin n} (below : pivot < i)

include below

theorem off_sum_below :
    block.offSum pivot.val i = |block.entry i pivot| + block.behind pivot i i := by
  refine sum_where_split pivot (fun hit => lt_irrefl _ hit.1) (fun j => ?_) _
  constructor
  · rintro ⟨onward, other⟩
    rcases eq_or_lt_of_le (show pivot ≤ j from onward) with same | right
    · exact .inl same.symm
    · exact .inr ⟨right, other⟩
  · rintro (rfl | ⟨right, other⟩)
    · exact ⟨le_refl _, ne_of_lt below⟩
    · exact ⟨le_of_lt right, other⟩

theorem off_sum_pivot :
    block.offSum pivot.val pivot = |block.entry pivot i| + block.behind pivot i pivot := by
  refine sum_where_split i (fun hit => hit.2 rfl) (fun j => ?_) _
  constructor
  · rintro ⟨onward, other⟩
    by_cases same : j = i
    · exact .inl same
    · exact .inr ⟨lt_of_le_of_ne onward (Ne.symm other), same⟩
  · rintro (rfl | ⟨right, _⟩)
    · exact ⟨le_of_lt below, ne_of_gt below⟩
    · exact ⟨le_of_lt right, ne_of_gt right⟩

theorem off_sum_eliminate_le :
    (block.eliminate pivot).offSum (pivot.val + 1) i ≤ block.behind pivot i i +
      |block.entry i pivot / block.entry pivot pivot| * block.behind pivot i pivot := by
  unfold offSum behind
  rw [Finset.mul_sum, ← Finset.sum_add_distrib]
  apply Finset.sum_le_sum
  intro j _
  have same : (pivot.val + 1 ≤ j.val ∧ j ≠ i) ↔ (pivot < j ∧ j ≠ i) := Iff.rfl
  simp only [same]
  by_cases kept : pivot < j ∧ j ≠ i
  · rw [if_pos kept, if_pos kept, if_pos kept, block.entry_eliminate_below below kept.1, ← abs_mul]
    exact abs_sub _ _
  · rw [if_neg kept, if_neg kept, if_neg kept, mul_zero, add_zero]

end Pivot

theorem Dominant.pivot {block : Block ℚ n} {m : Nat} (dominant : block.Dominant m) (i : Fin n)
    (left : m ≤ i.val) : block.entry i i ≠ 0 :=
  abs_pos.mp (lt_of_le_of_lt (off_sum_nonneg block m i) (dominant i left))

/-- A pivot takes from no row below more than the row has to spare. -/
theorem Dominant.eliminate {block : Block ℚ n} {pivot : Fin n}
    (dominant : block.Dominant pivot.val) :
    (block.eliminate pivot).Dominant (pivot.val + 1) := by
  intro i left
  have below : pivot < i := left
  have nonzero := dominant.pivot pivot (le_refl _)
  have row := dominant i (le_of_lt below)
  have pivots := dominant pivot (le_refl _)
  rw [off_sum_below block below] at row
  rw [off_sum_pivot block below] at pivots
  have rest := off_sum_eliminate_le block below
  have diagonal : |block.entry i i| -
      |block.entry i pivot / block.entry pivot pivot| * |block.entry pivot i| ≤
        |(block.eliminate pivot).entry i i| := by
    rw [block.entry_eliminate_below below below, ← abs_mul]
    exact abs_sub_abs_le_abs_sub _ _
  -- the multiplier scales the pivot's row down to the entry that it clears
  have scaled : |block.entry i pivot / block.entry pivot pivot| *
      (|block.entry pivot i| + block.behind pivot i pivot) ≤ |block.entry i pivot| := by
    calc |block.entry i pivot / block.entry pivot pivot| *
          (|block.entry pivot i| + block.behind pivot i pivot)
        ≤ |block.entry i pivot / block.entry pivot pivot| * |block.entry pivot pivot| :=
          mul_le_mul_of_nonneg_left (le_of_lt pivots) (abs_nonneg _)
      _ = |block.entry i pivot| := by rw [← abs_mul, div_mul_cancel₀ _ nonzero]
  rw [mul_add] at scaled
  linarith

theorem Dominant.factor_ok {block : Block ℚ n} (dominant : block.Dominant 0) :
    ∃ factor, block.factor = .ok factor := by
  have ends : Ends (fun m current => Dominant current m) block.factor :=
    factor_ends dominant fun _ _ left _ => left.eliminate
  cases ended : block.factor with
  | ok factor => exact ⟨factor, rfl⟩
  | error value =>
      rw [ended] at ends
      cases ends with
      | stuck pivot left useless =>
          have usable := (Exact.usable_iff _).mpr (left.pivot pivot (le_refl _))
          exact absurd (usable.symm.trans useless) (by decide)

def Outweighs (block : Block ℚ n) (margin : ℚ) : Prop :=
  ∀ i : Fin n, block.offSum 0 i + margin ≤ |block.entry i i|

theorem Outweighs.dominant {block : Block ℚ n} {margin : ℚ} (outweighs : block.Outweighs margin)
    (positive : 0 < margin) : block.Dominant 0 := by
  intro i _
  have least := outweighs i
  linarith

theorem Outweighs.damps {block : Block ℚ n} {margin bound : ℚ} {x g : Fin n → ℚ}
    (outweighs : block.Outweighs margin) (nonneg : 0 ≤ margin)
    (solves : ∀ i, ∑ j, block.entry i j * x j = g i) (small : ∀ i, |g i| ≤ bound) (i : Fin n) :
    margin * |x i| ≤ bound := by
  -- the largest component is held down by its own row
  obtain ⟨largest, _, most⟩ :=
    Finset.exists_max_image Finset.univ (fun j => |x j|) ⟨i, Finset.mem_univ i⟩
  have row : block.entry largest largest * x largest = g largest -
      ∑ j, if 0 ≤ j.val ∧ j ≠ largest then block.entry largest j * x j else 0 := by
    have whole := sum_where_split (p := fun _ => True) (q := fun j => 0 ≤ j.val ∧ j ≠ largest)
      largest (fun hit => hit.2 rfl) (fun j => by simp [em]) fun j => block.entry largest j * x j
    simp only [if_true, solves] at whole
    linarith
  have others : |∑ j, if 0 ≤ j.val ∧ j ≠ largest then block.entry largest j * x j else 0| ≤
      block.offSum 0 largest * |x largest| := by
    rw [offSum, Finset.sum_mul]
    refine (Finset.abs_sum_le_sum_abs _ _).trans ?_
    apply Finset.sum_le_sum
    intro j member
    by_cases other : 0 ≤ j.val ∧ j ≠ largest
    · rw [if_pos other, if_pos other, abs_mul]
      exact mul_le_mul_of_nonneg_left (most j member) (abs_nonneg _)
    · rw [if_neg other, if_neg other, abs_zero, zero_mul]
  have own : |block.entry largest largest| * |x largest| ≤
      bound + block.offSum 0 largest * |x largest| := by
    rw [← abs_mul, row]
    exact (abs_sub _ _).trans (add_le_add (small largest) others)
  have weighed := mul_le_mul_of_nonneg_right (outweighs largest) (abs_nonneg (x largest))
  calc margin * |x i| ≤ margin * |x largest| :=
        mul_le_mul_of_nonneg_left (most i (Finset.mem_univ i)) nonneg
    _ ≤ bound := by
        rw [add_mul] at weighed
        linarith

end Block

namespace InverseDiagonal

theorem factor_block_ok {n : Nat} {block : Block ℚ n} (dominant : block.Dominant 0) :
    ∃ factor, factorBlock block = .ok factor := by
  rw [factor_block_eq]
  exact dominant.factor_ok

theorem of_scalars_succeeds {diagonal : Array ℚ} (nonzero : ∀ value ∈ diagonal, value ≠ 0) :
    ∃ inverse, ofScalars diagonal = .ok inverse := by
  have none : diagonal.findIdx? (fun value => !Arithmetic.usable value) = none := by
    apply Array.findIdx?_eq_none_iff.mpr
    intro value member
    rw [(Exact.usable_iff value).mpr (nonzero value member)]
    rfl
  unfold ofScalars
  rw [none]
  exact ⟨_, rfl⟩

theorem of_blocks_succeeds {diagonal : Array ℚ} {n : Nat} (positive : 0 < n)
    (small : n ≤ maxBlockSize) (whole : diagonal.size % (n * n) = 0)
    (dominant : ∀ row, row < diagonal.size / (n * n) →
      (Block.stored diagonal (row * (n * n)) n).Dominant 0) :
    ∃ inverse, ofBlocks diagonal n = .ok inverse := by
  have each : ∀ row : Fin (diagonal.size / (n * n)), ∃ factor,
      factorBlock (blockAt diagonal n row) = .ok factor := by
    intro row
    rw [block_at_stored]
    exact factor_block_ok (dominant row row.isLt)
  choose factors factored using each
  have blocks : (List.finRange (diagonal.size / (n * n))).mapM (fun row =>
      (factorBlock (blockAt diagonal n row)).mapError (Refusal.singularBlock row.val)) =
        .ok ((List.finRange (diagonal.size / (n * n))).map factors) := by
    apply mapM_of_ok
    intro row _
    rw [factored row]
    rfl
  unfold ofBlocks checkBlockSize
  rw [if_neg (by omega), if_neg (not_not.mpr whole)]
  simp only [blocks]
  exact ⟨_, rfl⟩

theorem factorize_succeeds {diagonal : Array ℚ} {rows n : Nat}
    (whole : diagonal.size = rows * n * n) (positive : 0 < n) (small : n ≤ maxBlockSize)
    (dominant : ∀ row, row < rows → (Block.stored diagonal (row * (n * n)) n).Dominant 0) :
    ∃ inverse, factorize diagonal n = .ok inverse := by
  have square : 0 < n * n := Nat.mul_pos positive positive
  rw [Nat.mul_assoc] at whole
  unfold factorize
  by_cases scalar : n = 1
  · subst scalar
    rw [if_pos rfl]
    apply of_scalars_succeeds
    intro value member
    obtain ⟨row, inside, rfl⟩ := Array.mem_iff_getElem.mp member
    have pivot := (dominant row (by omega)).pivot 0 (le_refl 0)
    simpa [Array.getD_eq_getD_getElem?, inside] using pivot
  · rw [if_neg scalar]
    apply of_blocks_succeeds positive small
    · rw [whole, Nat.mul_mod_left]
    · intro row inside
      rw [whole, Nat.mul_div_cancel _ square] at inside
      exact dominant row inside

end InverseDiagonal
end Relaxation

import Relaxation.Proofs.InverseDiagonal
import Relaxation.Proofs.Rounding

/-!
A factor that was accepted is finite throughout, although only pivots are tested: an entry that
is not finite spoils the pivot of its row or of its column, whichever comes later, and nothing
that elimination does repairs it.
-/

namespace Relaxation

variable {α : Type} [Arithmetic α] [FiniteOperands α]

namespace Block

variable {n : Nat}

/-- After `m` pivots, all of them usable: a diagonal entry that is finite had only finite numbers
taken from it, so that the entries of its row and of its column under these pivots are finite. -/
structure Vouched (current : Block α n) (m : Nat) : Prop where
  usable : ∀ p : Fin n, p.val < m → Arithmetic.usable (current.entry p p) = true
  crossing : ∀ i p : Fin n, p.val < m → p < i →
    Arithmetic.isFinite (current.entry i i) = true →
    Arithmetic.isFinite (current.entry i p) = true ∧ Arithmetic.isFinite (current.entry p i) = true

omit [FiniteOperands α] in
theorem vouched_start (block : Block α n) : Vouched block 0 where
  usable _ used := absurd used (Nat.not_lt_zero _)
  crossing _ _ used := absurd used (Nat.not_lt_zero _)

theorem Vouched.next {current : Block α n} {pivot : Fin n} (vouched : Vouched current pivot.val)
    (usable : Arithmetic.usable (current.entry pivot pivot) = true) :
    Vouched (current.eliminate pivot) (pivot.val + 1) where
  usable := pivots_kept (P := fun value => Arithmetic.usable value = true) current vouched.usable
    usable
  crossing := by
    intro i p used before finite
    have above : p ≤ pivot := Nat.lt_succ_iff.mp used
    rw [entry_eliminate_kept current (.inl above)]
    rcases le_or_gt i pivot with settled | below
    · -- the pivot changes neither this row nor the column above it
      rw [entry_eliminate_kept current (.inl settled)] at finite ⊢
      exact vouched.crossing i p (lt_of_lt_of_le before settled) before finite
    · -- the diagonal entry loses a product with the multiplier and the pivot's row
      rw [entry_eliminate_below current below below] at finite
      obtain ⟨diagonal, product⟩ := FiniteOperands.of_sub _ _ finite
      obtain ⟨multiplier, row⟩ := FiniteOperands.of_mul _ _ product
      rcases lt_or_eq_of_le above with earlier | same
      · rw [entry_eliminate_kept current (.inr earlier)]
        exact vouched.crossing i p earlier before diagonal
      · subst same
        rw [entry_eliminate_column current below]
        exact ⟨multiplier, row⟩

omit [FiniteOperands α] in
theorem Vouched.finite {factor : Block α n} (vouched : Vouched factor n) (i j : Fin n) :
    Arithmetic.isFinite (factor.entry i j) = true := by
  have diagonal : ∀ p : Fin n, Arithmetic.isFinite (factor.entry p p) = true := fun p =>
    (Bool.and_eq_true_iff.mp (vouched.usable p p.isLt)).2
  rcases lt_trichotomy i j with above | same | below
  · exact (vouched.crossing j i i.isLt above (diagonal j)).2
  · exact same ▸ diagonal i
  · exact (vouched.crossing i j j.isLt below (diagonal i)).1

theorem vouched_of_factor {block factor : Block α n} (ran : block.factor = .ok factor) :
    Vouched factor n := by
  have ends : Ends (fun m current => Vouched current m) block.factor :=
    factor_ends (vouched_start block) fun _ _ vouched usable => vouched.next usable
  rw [ran] at ends
  cases ends with
  | factored vouched => exact vouched

section Stored

variable {values : Array α}

omit [FiniteOperands α]

theorem block_fits {row width size : Nat} (whole : width ∣ size) (inside : row * width < size) :
    row * width + width ≤ size := by
  obtain ⟨count, rfl⟩ := whole
  rw [Nat.mul_comm width] at inside ⊢
  rw [← Nat.succ_mul]
  exact Nat.mul_le_mul_right width (lt_of_mul_lt_mul_right inside (Nat.zero_le _))

theorem found_stored {start : Nat} (inside : start + n * n ≤ values.size) (i j : Fin n) :
    values[start + (i.val * n + j.val)]? = some ((stored values start n).entry i j) := by
  have position := position_lt i j
  have within : start + (i.val * n + j.val) < values.size := by omega
  simp [within]

theorem entry_of_value (whole : n * n ∣ values.size) {value : α} (member : value ∈ values) :
    ∃ row i j, row * (n * n) + n * n ≤ values.size ∧
      value = (stored values (row * (n * n)) n).entry i j := by
  obtain ⟨k, within, rfl⟩ := Array.mem_iff_getElem.mp member
  have square : 0 < n * n := Nat.pos_of_dvd_of_pos whole (lt_of_le_of_lt (Nat.zero_le k) within)
  let place : Fin (n * n) := ⟨k % (n * n), Nat.mod_lt k square⟩
  have inside := block_fits whole (lt_of_le_of_lt (Nat.div_mul_le_self k (n * n)) within)
  have found := found_stored inside (rowOf place) (columnOf place)
  have same : k / (n * n) * (n * n) + (k % (n * n) / n * n + k % (n * n) % n) = k := by
    rw [Nat.div_add_mod', Nat.div_add_mod']
  simp only [rowOf, columnOf, place, same] at found
  rw [Array.getElem?_eq_getElem within, Option.some.injEq] at found
  exact ⟨_, _, _, inside, found⟩

end Stored

end Block

namespace InverseDiagonal

/-- Whatever numbers a diagonal holds, the factors accepted for it are as many values, all of them
finite, and none on the diagonal of a factor is zero. -/
theorem accepted_factors_are_finite {diagonal : Array α} {n : Nat} {inverse : InverseDiagonal α}
    (accepted : ofBlocks diagonal n = .ok inverse) :
    inverse.blockSize = n ∧ inverse.values.size = diagonal.size ∧
      (∀ value ∈ inverse.values, Arithmetic.isFinite value = true) ∧
      ∀ row i, row * (n * n) < diagonal.size → i < n →
        ∃ pivot, inverse.values[row * (n * n) + (i * n + i)]? = some pivot ∧
          Arithmetic.isZero pivot = false := by
  obtain ⟨positive, _, even, values, rfl, size, factored⟩ := of_blocks_ok accepted
  have square : 0 < n * n := Nat.mul_pos positive positive
  have whole : n * n ∣ values.size := size ▸ Nat.dvd_of_mod_eq_zero even
  have vouched : ∀ row, row * (n * n) + n * n ≤ values.size →
      (Block.stored values (row * (n * n)) n).Vouched n := by
    intro row inside
    rw [← Nat.succ_mul, size] at inside
    have ran := factored row ((Nat.le_div_iff_mul_le square).mpr inside)
    rw [factor_block_eq] at ran
    exact Block.vouched_of_factor ran
  refine ⟨rfl, size, fun value member => ?_, fun row i inside bound => ?_⟩
  · obtain ⟨row, k, j, fits, rfl⟩ := Block.entry_of_value whole member
    exact (vouched row fits).finite k j
  · have fits := Block.block_fits whole (size ▸ inside)
    have usable := (vouched row fits).usable ⟨i, bound⟩ bound
    refine ⟨_, Block.found_stored fits ⟨i, bound⟩ ⟨i, bound⟩, ?_⟩
    simpa using (Bool.and_eq_true_iff.mp usable).1

/-- Three blocks of two: in the second one the product that is taken from the pivot underflows, and
in the third one a huge entry meets the multiplier of a huge pivot. -/
theorem huge_blocks_accepted :
    ∃ inverse : InverseDiagonal Float,
      ofBlocks #[2, 1, 1, 2, 1, 1e-300, 1e-300, 1, 1e300, 1e300, 1, 4] 2 = .ok inverse ∧
        (∀ value ∈ inverse.values, value.isFinite = true) ∧
        ∃ pivot, inverse.values[11]? = some pivot ∧ Arithmetic.isZero pivot = false := by
  have accepted : (ofBlocks (#[2, 1, 1, 2, 1, 1e-300, 1e-300, 1, 1e300, 1e300, 1, 4] :
      Array Float) 2).isOk = true := by
    decide +kernel
  cases ran : ofBlocks (#[2, 1, 1, 2, 1, 1e-300, 1e-300, 1, 1e300, 1e300, 1, 4] : Array Float) 2 with
  | error refusal =>
      rw [ran] at accepted
      cases accepted
  | ok inverse =>
      obtain ⟨_, _, finite, pivots⟩ := accepted_factors_are_finite ran
      exact ⟨inverse, rfl, finite, pivots 2 1 (by decide) (by decide)⟩

end InverseDiagonal
end Relaxation

import Mathlib
import Relaxation.Proofs.Factor
import Relaxation.Proofs.Kernel
import Relaxation.Proofs.Word

/-!
The inverse diagonal holds, row by row, what the kernel of its kind needs to solve the
row's own system.
-/

namespace Relaxation

section Blocks

variable {α : Type} {n : Nat}

theorem Block.ext_entry {left right : Block α n}
    (same : ∀ k, k < n * n → left.entries[k]? = right.entries[k]?) : left = right := by
  obtain ⟨left⟩ := left
  obtain ⟨right⟩ := right
  congr 1
  apply Vector.ext
  intro k bound
  simpa [bound] using same k bound

variable [Zero α]

def Block.stored (values : Array α) (start n : Nat) : Block α n :=
  .ofFn fun i j => values.getD (start + (i.val * n + j.val)) 0

@[simp] theorem Block.entry_stored (values : Array α) (start : Nat) (i j : Fin n) :
    (Block.stored values start n).entry i j = values.getD (start + (i.val * n + j.val)) 0 := by
  simp only [stored, entry_ofFn]

theorem Block.getElem?_stored (values : Array α) (start : Nat) {k : Nat} (bound : k < n * n) :
    (Block.stored values start n).entries[k]? = some (values.getD (start + k) 0) := by
  have whole : k / n * n + k % n = k := Nat.div_add_mod' k n
  simp [stored, ofFn, bound, rowOf, columnOf, whole]

theorem Block.window_stored {values : Array α} {start : Nat}
    (inside : start + n * n ≤ values.size) :
    (⟨Storage.window values start (n * n) inside⟩ : Block α n) = Block.stored values start n := by
  apply Block.ext_entry
  intro k bound
  rw [Block.getElem?_stored values start bound]
  have within : start + k < values.size := by omega
  simp [Storage.window, bound, within]

end Blocks

section Lists

variable {β γ : Type}

theorem flatMap_by_index (items : List β) (pieces : β → List γ) :
    items.flatMap pieces =
      (List.range items.length).flatMap fun k => (items[k]?.map pieces).getD [] := by
  induction items with
  | nil => rfl
  | cons first rest ih =>
      rw [List.flatMap_cons, ih, List.length_cons, List.range_succ_eq_map, List.flatMap_cons,
        List.flatMap_map]
      rfl

end Lists

namespace InverseDiagonal

variable {α : Type} [Arithmetic α]

omit [Arithmetic α] in
theorem append_all {n : Nat} (blocks : List (Block α n)) (values : Array α) :
    blocks.foldl (fun values block => values ++ block.entries.toArray) values =
      values ++ (blocks.flatMap fun block => block.entries.toList).toArray := by
  induction blocks generalizing values with
  | nil => simp
  | cons block rest ih =>
      rw [List.foldl_cons, ih, List.flatMap_cons]
      apply Array.ext'
      simp
      rfl

theorem stored_append {n : Nat} (blocks : List (Block α n)) :
    (blocks.flatMap fun block => block.entries.toList).length = blocks.length * (n * n) ∧
      ∀ row block, blocks[row]? = some block →
        Block.stored (blocks.flatMap fun block => block.entries.toList).toArray (row * (n * n)) n =
          block := by
  have uniform : ∀ t, t < blocks.length →
      ((blocks[t]?.map fun block => block.entries.toList).getD []).length = n * n := by
    intro t bound
    simp [bound]
  rw [flatMap_by_index]
  refine ⟨length_flatMap_uniform _ (n * n) _ uniform, fun row block found => ?_⟩
  have inside : row < blocks.length := (List.getElem?_eq_some_iff.mp found).1
  apply Block.ext_entry
  intro k bound
  have here := getElem?_flatMap_uniform _ (n * n) _ uniform inside bound
  rw [Block.getElem?_stored _ _ bound, Array.getD_eq_getD_getElem?, List.getElem?_toArray, here,
    found]
  simp [bound]

theorem block_at_stored {diagonal : Array α} {n : Nat} (row : Fin (diagonal.size / (n * n))) :
    blockAt diagonal n row = Block.stored diagonal (row * (n * n)) n := by
  apply Block.ext_entry
  intro k inside
  have next := Nat.mul_le_mul_right (n * n) row.isLt
  have whole := Nat.div_mul_le_self diagonal.size (n * n)
  rw [Nat.succ_mul] at next
  have within : row * (n * n) + k < diagonal.size := by omega
  rw [Block.getElem?_stored _ _ inside]
  simp [blockAt, inside, within]

omit [Arithmetic α] in
theorem ok_of_map_error {ε ε' β : Type} {name : ε → ε'} {result : Except ε β} {value : β}
    (ran : result.mapError name = .ok value) : result = .ok value := by
  cases result with
  | ok answer =>
      cases ran
      rfl
  | error failure => cases ran

theorem factor_block_eq {n : Nat} (block : Block α n) : factorBlock block = block.factor := by
  unfold factorBlock
  split
  · exact Block.factor_triple_eq _
  · rfl

theorem of_blocks_ok {diagonal : Array α} {n : Nat} {inverse : InverseDiagonal α}
    (ran : ofBlocks diagonal n = .ok inverse) :
    0 < n ∧ n ≤ maxBlockSize ∧ diagonal.size % (n * n) = 0 ∧
      ∃ values, inverse = .factors n values ∧ values.size = diagonal.size ∧
        ∀ row, row < diagonal.size / (n * n) →
          factorBlock (Block.stored diagonal (row * (n * n)) n) =
            .ok (Block.stored values (row * (n * n)) n) := by
  unfold ofBlocks checkBlockSize at ran
  by_cases range : n = 0 ∨ maxBlockSize < n
  · rw [if_pos range] at ran
    cases ran
  rw [if_neg range] at ran
  by_cases ragged : diagonal.size % (n * n) ≠ 0
  · simp only [if_pos ragged] at ran
    cases ran
  rw [if_neg ragged] at ran
  cases factored : (List.finRange (diagonal.size / (n * n))).mapM fun row =>
      (factorBlock (blockAt diagonal n row)).mapError
        (Refusal.singularBlock row.val) with
  | error refusal =>
      simp only [factored] at ran
      cases ran
  | ok blocks =>
      simp only [factored] at ran
      have same : inverse = .factors n
          (blocks.foldl (fun values block => values ++ block.entries.toArray) #[]) := by
        cases ran
        rfl
      obtain ⟨count, answered⟩ := mapM_ok factored
      obtain ⟨length, stored⟩ := stored_append blocks
      rw [append_all, Array.empty_append] at same
      rw [List.length_finRange] at count
      have whole : diagonal.size % (n * n) = 0 := not_not.mp ragged
      refine ⟨by omega, by omega, whole, _, same, ?_, fun row bound => ?_⟩
      · rw [List.size_toArray, length, count]
        exact Nat.div_mul_cancel (Nat.dvd_of_mod_eq_zero whole)
      · obtain ⟨block, found, factor⟩ := answered row ⟨row, bound⟩ (by simp [bound])
        rw [stored row block found, ← block_at_stored ⟨row, bound⟩]
        exact ok_of_map_error factor

theorem of_scalars_ok {diagonal : Array α} {inverse : InverseDiagonal α}
    (ran : ofScalars diagonal = .ok inverse) :
    inverse = .reciprocals (diagonal.map fun value => 1 / value) ∧
      ∀ value ∈ diagonal, Arithmetic.usable value = true := by
  unfold ofScalars at ran
  cases found : diagonal.findIdx? fun value => !Arithmetic.usable value with
  | some row =>
      rw [found] at ran
      cases ran
  | none =>
      rw [found] at ran
      cases ran
      refine ⟨rfl, fun value member => ?_⟩
      simpa using Array.findIdx?_eq_none_iff.mp found value member

section Rows

variable {α : Type} {inverse : InverseDiagonal α}

theorem rows_fault
    (uncounted : inverse.blockSize = 0 ∨ Word.limit ≤ inverse.blockSize * inverse.blockSize) :
    ∃ fault, inverse.rows = .error fault := by
  cases inverse with
  | reciprocals values =>
      change 1 = 0 ∨ Word.limit ≤ 1 * 1 at uncounted
      exact absurd uncounted (by decide)
  | factors blockSize values =>
      change blockSize = 0 ∨ Word.limit ≤ blockSize * blockSize at uncounted
      unfold rows
      rcases uncounted with rfl | beyond
      · exact ⟨.divisionByZero, rfl⟩
      · refine ⟨.overflow, ?_⟩
        dsimp only
        rw [Word.mul_of_le beyond]
        rfl

theorem rows_of_positive (positive : 0 < inverse.blockSize)
    (small : inverse.blockSize * inverse.blockSize < Word.limit) :
    inverse.rows = .ok (inverse.values.size / (inverse.blockSize * inverse.blockSize)) := by
  cases inverse with
  | reciprocals values => exact congrArg Except.ok (Nat.div_one values.size).symm
  | factors blockSize values =>
      change 0 < blockSize at positive
      change blockSize * blockSize < Word.limit at small
      have some : blockSize * blockSize ≠ 0 := Nat.ne_of_gt (Nat.mul_pos positive positive)
      unfold rows
      dsimp only
      rw [Word.mul_of_lt small]
      change (if blockSize * blockSize = 0 then _ else _ : Except Fault Nat) = _
      rw [if_neg some]
      rfl

theorem square_lt_limit {n : Nat} (small : n ≤ maxBlockSize) : n * n < Word.limit :=
  (Nat.mul_le_mul small small).trans_lt (by decide)

end Rows

end InverseDiagonal

namespace Kernel

def Inverts (kernel : Kernel) (rows : Nat) (diagonal inverse : Array ℚ) : Prop :=
  match kernel with
  | .scalar => ∀ row, row < rows → diagonal.getD row 0 * inverse.getD row 0 = 1
  | .triple => ∀ row, row < rows →
    Block.Factors (Block.stored diagonal (row * 9) 3) (Block.stored inverse (row * 9) 3)
  | .block n => ∀ row, row < rows →
    Block.Factors (Block.stored diagonal (row * (n * n)) n) (Block.stored inverse (row * (n * n)) n)

theorem factors_of_factor_block {n : Nat} {block factor : Block ℚ n}
    (ran : InverseDiagonal.factorBlock block = .ok factor) : Block.Factors block factor := by
  rw [InverseDiagonal.factor_block_eq] at ran
  exact Block.factors_of_factor ran

theorem of_factors {α : Type} {n : Nat} (other : n ≠ 3) (values : Array α) :
    Kernel.ofInverse (.factors n values) = .block n := by
  unfold ofInverse
  split
  · next same => cases same
  · next same =>
      cases same
      exact absurd rfl other
  · next same =>
      cases same
      rfl

theorem block_size_of_inverse {α : Type} (inverse : InverseDiagonal α) :
    (Kernel.ofInverse inverse).blockSize = inverse.blockSize := by
  unfold ofInverse
  split <;> rfl

theorem inverts_of_blocks {diagonal : Array ℚ} {rows n : Nat} {inverse : InverseDiagonal ℚ}
    (whole : diagonal.size = rows * n * n)
    (ran : InverseDiagonal.ofBlocks diagonal n = .ok inverse) :
    inverse.blockSize = n ∧ inverse.rows = .ok rows ∧
      (Kernel.ofInverse inverse).inverseLength rows = inverse.values.size ∧
      (Kernel.ofInverse inverse).Inverts rows diagonal inverse.values := by
  obtain ⟨positive, small, _, values, rfl, size, factored⟩ := InverseDiagonal.of_blocks_ok ran
  have square : 0 < n * n := Nat.mul_pos positive positive
  have count : diagonal.size / (n * n) = rows := by
    rw [whole, Nat.mul_assoc, Nat.mul_div_cancel _ square]
  have inverts : ∀ row, row < rows → Block.Factors (Block.stored diagonal (row * (n * n)) n)
      (Block.stored values (row * (n * n)) n) := fun row inside =>
    factors_of_factor_block (factored row (count ▸ inside))
  have counted := @InverseDiagonal.rows_of_positive ℚ (.factors n values) positive
    (InverseDiagonal.square_lt_limit small)
  refine ⟨rfl, counted.trans (congrArg Except.ok (size ▸ count)), ?_⟩
  by_cases three : n = 3
  · subst three
    exact ⟨(size.trans whole).symm, inverts⟩
  · rw [of_factors three]
    exact ⟨(size.trans whole).symm, inverts⟩

theorem inverts_of_scalars {diagonal : Array ℚ} {rows : Nat} {inverse : InverseDiagonal ℚ}
    (whole : diagonal.size = rows) (ran : InverseDiagonal.ofScalars diagonal = .ok inverse) :
    inverse.blockSize = 1 ∧ inverse.rows = .ok rows ∧
      (Kernel.ofInverse inverse).inverseLength rows = inverse.values.size ∧
      (Kernel.ofInverse inverse).Inverts rows diagonal inverse.values := by
  obtain ⟨rfl, usable⟩ := InverseDiagonal.of_scalars_ok ran
  refine ⟨rfl, ?_, ?_, fun row inside => ?_⟩
  · simp [InverseDiagonal.rows, whole]
  · simp [Kernel.ofInverse, inverseLength, InverseDiagonal.values, whole]
  · have within : row < diagonal.size := whole ▸ inside
    have nonzero := (Exact.usable_iff _).mp (usable diagonal[row] (Array.getElem_mem within))
    simp [InverseDiagonal.values, Array.getD_eq_getD_getElem?, within]
    exact mul_inv_cancel₀ nonzero

theorem inverts_of_factorized {diagonal : Array ℚ} {rows n : Nat} {inverse : InverseDiagonal ℚ}
    (whole : diagonal.size = rows * n * n)
    (ran : InverseDiagonal.factorize diagonal n = .ok inverse ∨
      InverseDiagonal.ofBlocks diagonal n = .ok inverse) :
    inverse.blockSize = n ∧ inverse.rows = .ok rows ∧
      (Kernel.ofInverse inverse).inverseLength rows = inverse.values.size ∧
      (Kernel.ofInverse inverse).Inverts rows diagonal inverse.values := by
  rcases ran with ran | ran
  · unfold InverseDiagonal.factorize at ran
    by_cases scalar : n = 1
    · subst scalar
      exact inverts_of_scalars (by simpa using whole) (by simpa using ran)
    · exact inverts_of_blocks whole (by simpa [scalar] using ran)
  · exact inverts_of_blocks whole ran

end Kernel
end Relaxation

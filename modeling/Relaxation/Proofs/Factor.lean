import Mathlib
import Relaxation.Proofs.Elimination
import Relaxation.Proofs.Exact

/-!
In exact arithmetic a compact factor multiplies back to its block, and the two
substitutions solve the block's system.
-/

namespace Relaxation

section Folds

variable {β : Type} {n : Nat}

/-- A fact that every pass of a loop carries on, numbered by the passes done. -/
theorem carried_up {f : β → Fin n → β} {P : Nat → β → Prop} {start : β} (first : P 0 start)
    (pass : ∀ i value, P i.val value → P (i.val + 1) (f value i)) : P n (Fin.foldl n f start) := by
  induction n generalizing start P with
  | zero => exact first
  | succ n ih =>
      rw [Fin.foldl_succ]
      exact ih (P := fun done => P (done + 1)) (pass 0 start first) fun i value held =>
        pass i.succ value held

theorem carried_down {f : Fin n → β → β} {P : Nat → β → Prop} {start : β} (first : P n start)
    (pass : ∀ i value, P (i.val + 1) value → P i.val (f i value)) : P 0 (Fin.foldr n f start) := by
  induction n generalizing P with
  | zero => exact first
  | succ n ih =>
      rw [Fin.foldr_succ]
      exact pass 0 _ (ih (P := fun left => P (left + 1)) first fun i value held =>
        pass i.succ value held)

theorem foldl_add (g : Fin n → ℚ) (start : ℚ) :
    Fin.foldl n (fun sum j => sum + g j) start = start + ∑ j, g j := by
  induction n generalizing start with
  | zero => simp
  | succ n ih =>
      rw [Fin.foldl_succ, ih, Fin.sum_univ_succ]
      ring

theorem foldl_sub_where (p : Fin n → Prop) [DecidablePred p] (g : Fin n → ℚ) (start : ℚ) :
    Fin.foldl n (fun sum j => if p j then sum - g j else sum) start =
      start - ∑ j, if p j then g j else 0 := by
  have same : (fun (sum : ℚ) j => if p j then sum - g j else sum) =
      fun sum j => sum + -(if p j then g j else 0) := by
    funext sum j
    by_cases hit : p j
    · rw [if_pos hit, if_pos hit, sub_eq_add_neg]
    · rw [if_neg hit, if_neg hit, neg_zero, add_zero]
  rw [same, foldl_add, Finset.sum_neg_distrib, sub_eq_add_neg]

theorem sum_below_succ (p : Fin n → Prop) [DecidablePred p] (g : Fin n → ℚ) (last : Fin n) :
    (∑ k, if p k ∧ k.val < last.val + 1 then g k else 0) =
      (∑ k, if p k ∧ k.val < last.val then g k else 0) + if p last then g last else 0 := by
  have apart : ∀ k, (if p k ∧ k.val < last.val + 1 then g k else 0) =
      (if p k ∧ k.val < last.val then g k else 0) +
        if k = last then (if p last then g last else 0) else 0 := by
    intro k
    rcases lt_trichotomy k.val last.val with below | same | above
    · have other : k ≠ last := fun equal => absurd (congrArg Fin.val equal) (by omega)
      simp [below, other, Nat.lt_succ_of_lt below]
    · have equal : k = last := Fin.ext same
      subst equal
      simp
    · have other : k ≠ last := fun equal => absurd (congrArg Fin.val equal) (by omega)
      have beyond : ¬ k.val < last.val + 1 := by omega
      simp [beyond, other, Nat.not_lt.mpr (le_of_lt above)]
  rw [Finset.sum_congr rfl fun k _ => apart k, Finset.sum_add_distrib, Finset.sum_ite_eq',
    if_pos (Finset.mem_univ last)]

end Folds

namespace Block

variable {n : Nat}

/-- What a compact factor has to be: no pivot is zero, and the unit lower factor times
the upper one is the block. -/
structure Factors (block factor : Block ℚ n) : Prop where
  pivot : ∀ p, factor.entry p p ≠ 0
  product : ∀ i j, block.entry i j =
    (∑ p, if p < i ∧ p < j then factor.entry i p * factor.entry p j else 0) +
      if j < i then factor.entry i j * factor.entry j j else factor.entry i j

structure Eliminated (block current : Block ℚ n) (m : Nat) : Prop where
  pivot : ∀ p : Fin n, p.val < m → current.entry p p ≠ 0
  product : ∀ i j, block.entry i j =
    (∑ p, if (p < i ∧ p < j) ∧ p.val < m then current.entry i p * current.entry p j else 0) +
      if j < i ∧ j.val < m then current.entry i j * current.entry j j else current.entry i j

theorem eliminated_start (block : Block ℚ n) : Eliminated block block 0 where
  pivot p used := absurd used (Nat.not_lt_zero _)
  product i j := by simp

theorem Eliminated.next {block current : Block ℚ n} {pivot : Fin n}
    (done : Eliminated block current pivot.val) (usable : current.entry pivot pivot ≠ 0) :
    Eliminated block (current.eliminate pivot) (pivot.val + 1) where
  pivot := pivots_kept (P := fun value => value ≠ 0) current done.pivot usable
  product := by
    intro i j
    -- the terms of the earlier pivots: their rows and columns are final
    have earlier : (∑ p, if (p < i ∧ p < j) ∧ p.val < pivot.val then
          (current.eliminate pivot).entry i p * (current.eliminate pivot).entry p j else 0) =
        ∑ p, if (p < i ∧ p < j) ∧ p.val < pivot.val then
          current.entry i p * current.entry p j else 0 := by
      apply Finset.sum_congr rfl
      intro p _
      by_cases hit : (p < i ∧ p < j) ∧ p.val < pivot.val
      · rw [if_pos hit, if_pos hit, entry_eliminate_kept current (.inr hit.2),
          entry_eliminate_kept current (.inl (le_of_lt hit.2))]
      · rw [if_neg hit, if_neg hit]
    have before := done.product i j
    rw [sum_below_succ (fun p => p < i ∧ p < j), earlier]
    rcases lt_or_ge pivot i with below | above
    · rcases lt_trichotomy j pivot with left | same | right
      · -- a column that was eliminated before
        have used : j < i ∧ j.val < pivot.val := ⟨lt_trans left below, left⟩
        have still : j < i ∧ j.val < pivot.val + 1 := ⟨used.1, Nat.lt_succ_of_lt left⟩
        rw [if_pos used] at before
        rw [if_neg fun hit : pivot < i ∧ pivot < j => absurd hit.2 (not_lt.mpr (le_of_lt left)),
          if_pos still, entry_eliminate_kept current (.inr left),
          entry_eliminate_kept current (.inr left), add_zero]
        exact before
      · -- the pivot's own column now holds the multipliers
        subst same
        rw [if_neg fun hit : j < i ∧ j.val < j.val => absurd hit.2 (lt_irrefl _)] at before
        rw [if_neg fun hit : j < i ∧ j < j => absurd hit.2 (lt_irrefl _),
          if_pos ⟨below, Nat.lt_succ_self _⟩, entry_eliminate current j i j,
          if_pos ⟨below, le_refl j⟩, if_pos rfl, entry_eliminate_kept current (.inl (le_refl j)),
          div_mul_cancel₀ _ usable, add_zero]
        exact before
      · -- the columns on the right lose the multiple that the new term adds
        have unused : ¬(j < i ∧ j.val < pivot.val) := fun hit =>
          absurd hit.2 (Nat.not_lt.mpr (le_of_lt right))
        have unused' : ¬(j < i ∧ j.val < pivot.val + 1) := fun hit =>
          absurd hit.2 (Nat.not_lt.mpr right)
        rw [if_neg unused] at before
        rw [if_pos ⟨below, right⟩, if_neg unused', entry_eliminate current pivot i pivot,
          if_pos ⟨below, le_refl pivot⟩, if_pos rfl,
          entry_eliminate_kept current (.inl (le_refl pivot)), entry_eliminate current pivot i j,
          if_pos ⟨below, le_of_lt right⟩, if_neg (ne_of_gt right), before]
        ring
    · -- a row that is not below the pivot
      have same : (j < i ∧ j.val < pivot.val + 1) ↔ (j < i ∧ j.val < pivot.val) :=
        ⟨fun hit => ⟨hit.1, lt_of_lt_of_le hit.1 above⟩, fun hit => ⟨hit.1, Nat.lt_succ_of_lt hit.2⟩⟩
      rw [if_neg fun hit : pivot < i ∧ pivot < j => absurd hit.1 (not_lt.mpr above), add_zero,
        entry_eliminate_kept current (.inl above)]
      by_cases used : j < i ∧ j.val < pivot.val
      · rw [if_pos used] at before
        rw [if_pos (same.mpr used), entry_eliminate_kept current (.inr used.2)]
        exact before
      · rw [if_neg used] at before
        rw [if_neg fun hit => used (same.mp hit)]
        exact before

theorem Eliminated.factors {block factor : Block ℚ n} (done : Eliminated block factor n) :
    Factors block factor where
  pivot p := done.pivot p p.isLt
  product i j := by
    have before := done.product i j
    simpa only [Fin.is_lt, and_true] using before

theorem factor_ends_eliminated (block : Block ℚ n) :
    Ends (fun m current => Eliminated block current m) block.factor :=
  factor_ends (eliminated_start block) fun _ _ done usable =>
    done.next ((Exact.usable_iff _).mp usable)

theorem factors_of_factor {block factor : Block ℚ n} (ran : block.factor = .ok factor) :
    Factors block factor := by
  have ends := factor_ends_eliminated block
  rw [ran] at ends
  cases ends with
  | factored done => exact done.factors

section Substitution

variable {block factor : Block ℚ n} {rhs solved solution : Vector ℚ n}

def Lower (factor : Block ℚ n) (rhs solved : Vector ℚ n) (i : Fin n) : Prop :=
  solved.get i = rhs.get i - ∑ j, if j < i then solved.get j * factor.entry i j else 0

def Upper (factor : Block ℚ n) (rhs solved : Vector ℚ n) (i : Fin n) : Prop :=
  solved.get i =
    (rhs.get i - ∑ j, if i < j then solved.get j * factor.entry i j else 0) / factor.entry i i

theorem forward_lower (factor : Block ℚ n) (rhs : Vector ℚ n) (i : Fin n) :
    Lower factor rhs (factor.forward rhs) i := by
  unfold forward
  refine carried_up (P := fun done (solved : Vector ℚ n) =>
    ∀ i : Fin n, i.val < done → Lower factor rhs solved i) (fun i early => absurd early (by omega))
    (fun last solved held i early => ?_) i i.isLt
  have same : ∀ j : Fin n, j < last → ∀ value, (solved.set last value).get j = solved.get j :=
    fun j below value => by rw [get_set, if_neg (ne_of_gt below)]
  unfold Lower
  rcases lt_or_eq_of_le (Nat.lt_succ_iff.mp early) with before | now
  · rw [same i before, held i before]
    congr 1
    apply Finset.sum_congr rfl
    intro j _
    by_cases lower : j < i
    · rw [if_pos lower, if_pos lower, same j (lt_trans lower before)]
    · rw [if_neg lower, if_neg lower]
  · have equal : i = last := Fin.ext now
    subst equal
    rw [get_set, if_pos rfl, foldl_sub_where (fun j => j < i)]
    congr 1
    apply Finset.sum_congr rfl
    intro j _
    by_cases lower : j < i
    · rw [if_pos lower, if_pos lower, same j lower]
    · rw [if_neg lower, if_neg lower]

theorem backward_upper (factor : Block ℚ n) (rhs : Vector ℚ n) (i : Fin n) :
    Upper factor rhs (factor.backward rhs) i := by
  unfold backward
  refine carried_down (P := fun left (solved : Vector ℚ n) =>
    ∀ i : Fin n, left ≤ i.val → Upper factor rhs solved i)
    (fun i late => absurd late (by omega)) (fun last solved held i late => ?_) i (Nat.zero_le _)
  have same : ∀ j : Fin n, last < j → ∀ value, (solved.set last value).get j = solved.get j :=
    fun j above value => by rw [get_set, if_neg (ne_of_lt above)]
  unfold Upper
  rcases lt_or_eq_of_le late with before | now
  · rw [same i before, held i before]
    congr 2
    apply Finset.sum_congr rfl
    intro j _
    by_cases upper : i < j
    · rw [if_pos upper, if_pos upper, same j (lt_trans before upper)]
    · rw [if_neg upper, if_neg upper]
  · have equal : i = last := Fin.ext now.symm
    subst equal
    rw [get_set, if_pos rfl, foldl_sub_where (fun j => i < j)]
    congr 2
    apply Finset.sum_congr rfl
    intro j _
    by_cases upper : i < j
    · rw [if_pos upper, if_pos upper, same j upper]
    · rw [if_neg upper, if_neg upper]

theorem Factors.solves (factors : Factors block factor)
    (lower : ∀ i, Lower factor rhs solved i) (upper : ∀ i, Upper factor solved solution i)
    (i : Fin n) : ∑ j, block.entry i j * solution.get j = rhs.get i := by
  -- the equation of the upper factor, without its division
  have row : ∀ p, factor.entry p p * solution.get p +
      (∑ j, if p < j then solution.get j * factor.entry p j else 0) = solved.get p := by
    intro p
    have pivot := factors.pivot p
    have equation := upper p
    unfold Upper at equation
    rw [eq_div_iff pivot] at equation
    linarith
  -- the product of the factors, entry by entry below, above and on the diagonal
  have entry : ∀ j, block.entry i j * solution.get j =
      (∑ p, if p < i then
        factor.entry i p * (if p < j then solution.get j * factor.entry p j else 0) else 0) +
      (if j < i then factor.entry i j * (factor.entry j j * solution.get j) else 0) +
      (if i < j then solution.get j * factor.entry i j else 0) +
      if j = i then factor.entry i i * solution.get i else 0 := by
    intro j
    rw [factors.product i j, add_mul, Finset.sum_mul, add_assoc, add_assoc]
    congr 1
    · apply Finset.sum_congr rfl
      intro p _
      by_cases left : p < i
      · by_cases above : p < j
        · simp only [left, above, and_self, if_true]
          ring
        · simp [left, above]
      · simp [left]
    · rcases lt_trichotomy j i with below | same | above
      · simp only [below, if_true, not_lt.mpr (le_of_lt below), if_false, ne_of_lt below]
        ring
      · subst same
        simp
      · simp only [above, if_true, not_lt.mpr (le_of_lt above), if_false, ne_of_gt above]
        ring
  calc ∑ j, block.entry i j * solution.get j
      = (∑ j, ∑ p, if p < i then
          factor.entry i p * (if p < j then solution.get j * factor.entry p j else 0) else 0) +
        (∑ j, if j < i then factor.entry i j * (factor.entry j j * solution.get j) else 0) +
        (∑ j, if i < j then solution.get j * factor.entry i j else 0) +
        factor.entry i i * solution.get i := by
        rw [Finset.sum_congr rfl fun j _ => entry j, Finset.sum_add_distrib,
          Finset.sum_add_distrib, Finset.sum_add_distrib, Finset.sum_ite_eq',
          if_pos (Finset.mem_univ i)]
    _ = (∑ p, if p < i then factor.entry i p *
          ∑ j, (if p < j then solution.get j * factor.entry p j else 0) else 0) +
        (∑ p, if p < i then factor.entry i p * (factor.entry p p * solution.get p) else 0) +
        solved.get i := by
        rw [Finset.sum_comm, ← row i]
        have inner : ∀ p, (∑ j, if p < i then
            factor.entry i p * (if p < j then solution.get j * factor.entry p j else 0) else 0) =
            if p < i then factor.entry i p *
              ∑ j, (if p < j then solution.get j * factor.entry p j else 0) else 0 := by
          intro p
          by_cases left : p < i
          · simp only [left, if_true, Finset.mul_sum]
          · simp [left]
        rw [Finset.sum_congr rfl fun p _ => inner p]
        ring
    _ = (∑ p, if p < i then solved.get p * factor.entry i p else 0) + solved.get i := by
        rw [← Finset.sum_add_distrib]
        congr 1
        apply Finset.sum_congr rfl
        intro p _
        by_cases left : p < i
        · rw [if_pos left, if_pos left, if_pos left, ← row p]
          ring
        · rw [if_neg left, if_neg left, if_neg left, add_zero]
    _ = rhs.get i := by
        have equation := lower i
        unfold Lower at equation
        rw [equation]
        ring

theorem substitute_solves (factors : Factors block factor) (rhs : Vector ℚ n) (i : Fin n) :
    ∑ j, block.entry i j * (factor.substitute rhs).get j = rhs.get i :=
  factors.solves (forward_lower factor rhs) (backward_upper factor _) i

end Substitution

end Block
end Relaxation

import Mathlib
import Relaxation.Block.Factor
import Relaxation.Block.Triple

/-!
Elimination, whatever the numbers are. One pivot changes what lies below and to the right of it;
a factorization goes through all pivots or stops at the first that is of no use, and what every
pivot keeps holds of either end. The unrolled forms for three components are the general ones.
-/

namespace Relaxation.Block

variable {α : Type} {n : Nat}

theorem ext_of_entry {left right : Block α n} (same : ∀ i j, left.entry i j = right.entry i j) :
    left = right := by
  obtain ⟨left⟩ := left
  obtain ⟨right⟩ := right
  congr 1
  apply Vector.ext
  intro k bound
  have whole : k / n * n + k % n = k := Nat.div_add_mod' k n
  have found := same (rowOf ⟨k, bound⟩) (columnOf ⟨k, bound⟩)
  simpa only [entry, rowOf, columnOf, whole] using found

theorem get_set (values : Vector α n) (i j : Fin n) (value : α) :
    (values.set i value i.isLt).get j = if i = j then value else values.get j := by
  have each : ∀ vector : Vector α n, vector.get j = vector[j.val] := fun _ => rfl
  simp only [each, Vector.getElem_set, Fin.val_inj]

variable [Arithmetic α]

section Pivot

variable (block : Block α n)

theorem entry_eliminate (pivot i j : Fin n) :
    (block.eliminate pivot).entry i j =
      if pivot < i ∧ pivot ≤ j then
        if j = pivot then block.entry i pivot / block.entry pivot pivot
        else block.entry i j - block.entry i pivot / block.entry pivot pivot * block.entry pivot j
      else block.entry i j := by
  simp only [eliminate, entry_ofFn]

theorem entry_eliminate_kept {pivot i j : Fin n} (kept : i ≤ pivot ∨ j < pivot) :
    (block.eliminate pivot).entry i j = block.entry i j := by
  rw [entry_eliminate, if_neg]
  rcases kept with above | left
  · exact fun changed => absurd changed.1 (not_lt.mpr above)
  · exact fun changed => absurd changed.2 (not_le.mpr left)

theorem pivots_kept {P : α → Prop} {pivot : Fin n}
    (earlier : ∀ p : Fin n, p.val < pivot.val → P (block.entry p p))
    (next : P (block.entry pivot pivot)) (p : Fin n) (used : p.val < pivot.val + 1) :
    P ((block.eliminate pivot).entry p p) := by
  have above : p ≤ pivot := Nat.lt_succ_iff.mp used
  rw [entry_eliminate_kept block (.inl above)]
  rcases lt_or_eq_of_le above with before | same
  · exact earlier p before
  · exact same ▸ next

variable {pivot i : Fin n} (below : pivot < i)

include below

theorem entry_eliminate_column :
    (block.eliminate pivot).entry i pivot = block.entry i pivot / block.entry pivot pivot := by
  rw [entry_eliminate, if_pos ⟨below, le_refl pivot⟩, if_pos rfl]

theorem entry_eliminate_below {j : Fin n} (right : pivot < j) :
    (block.eliminate pivot).entry i j = block.entry i j -
      block.entry i pivot / block.entry pivot pivot * block.entry pivot j := by
  rw [entry_eliminate, if_pos ⟨below, le_of_lt right⟩, if_neg (ne_of_gt right)]

end Pivot

/-- The two ends of a factorization whose pivots all keep a property: the factor behind the last
pivot, or a block whose next pivot is of no use. -/
inductive Ends (P : Nat → Block α n → Prop) : Except α (Block α n) → Prop where
  | factored {factor : Block α n} (kept : P n factor) : Ends P (.ok factor)
  | stuck {current : Block α n} (pivot : Fin n) (kept : P pivot.val current)
    (useless : Arithmetic.usable (current.entry pivot pivot) = false) :
    Ends P (.error (current.entry pivot pivot))

/-- What holds of the block, and of every step by a usable pivot, holds at the end. -/
theorem factor_ends {P : Nat → Block α n → Prop} {block : Block α n} (first : P 0 block)
    (step : ∀ (pivot : Fin n) (current : Block α n), P pivot.val current →
      Arithmetic.usable (current.entry pivot pivot) = true →
      P (pivot.val + 1) (current.eliminate pivot)) :
    Ends P block.factor := by
  -- stated for the pivots from `m` on, and by induction on how many they are
  have onward : ∀ (left m : Nat) (current : Block α n), m + left = n → P m current →
      Ends P (((List.finRange n).drop m).foldlM (fun (block : Block α n) pivot =>
        if Arithmetic.usable (block.entry pivot pivot) then .ok (block.eliminate pivot)
        else .error (block.entry pivot pivot)) current) := by
    intro left
    induction left with
    | zero =>
        intro m current last held
        rw [Nat.add_zero] at last
        subst last
        rw [List.drop_eq_nil_of_le (by simp)]
        exact .factored held
    | succ left ih =>
        intro m current last held
        have bound : m < n := by omega
        rw [List.drop_eq_getElem_cons (by simpa using bound), List.foldlM_cons,
          List.getElem_finRange, Fin.cast_mk]
        cases usable : Arithmetic.usable (current.entry ⟨m, bound⟩ ⟨m, bound⟩) with
        | true =>
            rw [if_pos rfl]
            exact ih (m + 1) _ (by omega) (step ⟨m, bound⟩ current held usable)
        | false => exact .stuck ⟨m, bound⟩ held usable
  have whole := onward n 0 block (Nat.zero_add n) first
  rwa [List.drop_zero] at whole

section Triple

theorem factor_triple_eq (block : Block α 3) : block.factorTriple = block.factor := by
  have pivots : List.finRange 3 = [0, 1, 2] := by decide
  unfold factor factorTriple
  simp only [pivots, List.foldlM_cons, List.foldlM_nil]
  set lower10 := block.entry 1 0 / block.entry 0 0
  set pivot1 := block.entry 1 1 - lower10 * block.entry 0 1
  set upper12 := block.entry 1 2 - lower10 * block.entry 0 2
  set lower20 := block.entry 2 0 / block.entry 0 0
  set lower21 := (block.entry 2 1 - lower20 * block.entry 0 1) / pivot1
  set pivot2 := block.entry 2 2 - lower20 * block.entry 0 2 - lower21 * upper12
  -- the named values are the entries after one, two and three pivots
  have second : pivot1 = (block.eliminate 0).entry 1 1 := by
    simp [entry_eliminate, pivot1, lower10]
  have third : pivot2 = ((block.eliminate 0).eliminate 1).entry 2 2 := by
    simp [entry_eliminate, pivot2, lower21, lower20, upper12, pivot1, lower10]
  have last : (⟨#v[block.entry 0 0, block.entry 0 1, block.entry 0 2, lower10, pivot1, upper12,
      lower20, lower21, pivot2]⟩ : Block α 3) =
      ((block.eliminate 0).eliminate 1).eliminate 2 := by
    apply ext_of_entry
    intro i j
    fin_cases i <;> fin_cases j <;>
      simp [entry_eliminate, pivot2, lower21, lower20, upper12, pivot1, lower10] <;> rfl
  rw [last, third, second]
  cases Arithmetic.usable (block.entry 0 0) with
  | false => rfl
  | true =>
      cases usable1 : Arithmetic.usable ((block.eliminate 0).entry 1 1) with
      | false =>
          simp only [if_true, bind, Except.bind, usable1]
          rfl
      | true =>
          cases usable2 : Arithmetic.usable (((block.eliminate 0).eliminate 1).entry 2 2) with
          | false =>
              simp only [if_true, bind, Except.bind, usable1, usable2]
              rfl
          | true => simp only [if_true, bind, Except.bind, usable1, usable2]

/-- The unrolled substitution has the factors of three products the other way round. -/
theorem substitute_triple_eq (mul_comm : ∀ a b : α, a * b = b * a) (factor : Block α 3)
    (rhs : Vector α 3) : factor.substituteTriple rhs = factor.substitute rhs := by
  have solved : factor.substitute rhs =
      let solved1 := rhs.get 1 - rhs.get 0 * factor.entry 1 0
      let solved2 := rhs.get 2 - rhs.get 0 * factor.entry 2 0 - solved1 * factor.entry 2 1
      let x2 := solved2 / factor.entry 2 2
      let x1 := (solved1 - x2 * factor.entry 1 2) / factor.entry 1 1
      let x0 := (rhs.get 0 - x1 * factor.entry 0 1 - x2 * factor.entry 0 2) / factor.entry 0 0
      #v[x0, x1, x2] := rfl
  rw [solved]
  simp only [substituteTriple, mul_comm (factor.entry _ _)]

theorem difference_triple (a b : Vector α 3) :
    differenceTriple a b = Vector.ofFn fun k => a.get k - b.get k :=
  rfl

end Triple
end Relaxation.Block

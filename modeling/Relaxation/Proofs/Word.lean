import Mathlib.Logic.Basic
import Relaxation.Word

/-!
Checks against overflow that follow each other are one check: the value is right if no word
overflows on the way, and the call faults otherwise.
-/

namespace Relaxation.Word

variable {β γ : Type} {p q : Prop} [Decidable p] [Decidable q]

theorem within_of {value : β} (fits : p) : within p value = .ok value :=
  if_pos fits

theorem within_of_not {value : β} (beyond : ¬p) : within p value = .error .overflow :=
  if_neg beyond

theorem within_congr {value value' : β} (same : p ↔ q) (equal : value = value') :
    within p value = within q value' := by
  subst equal
  exact if_congr same rfl rfl

theorem mul_of_lt {a b : Nat} (fits : a * b < limit) : mul a b = .ok (a * b) :=
  within_of fits

theorem mul_of_le {a b : Nat} (beyond : limit ≤ a * b) : mul a b = .error .overflow :=
  within_of_not (Nat.not_lt.mpr beyond)

theorem within_bind {value : β} (next : β → Except Fault γ) {result : γ}
    (behind : next value = within q result) :
    (within p value >>= next) = within (p ∧ q) result := by
  by_cases fits : p
  · rw [within_of fits]
    exact behind.trans (within_congr (and_iff_right fits).symm rfl)
  · rw [within_of_not fits, within_of_not (fun both => fits both.1)]
    rfl

theorem within_map {value : β} (result : β → γ) :
    (within p value >>= fun value => pure (result value)) = within p (result value) := by
  by_cases fits : p
  · rw [within_of fits, within_of fits]
    rfl
  · rw [within_of_not fits, within_of_not fits]
    rfl

theorem mapM_within {fits : β → Prop} [DecidablePred fits] (value : β → γ) (items : List β) :
    items.mapM (fun item => within (fits item) (value item)) =
      within (∀ item ∈ items, fits item) (items.map value) := by
  induction items with
  | nil => exact (within_of (by simp)).symm
  | cons item rest ih =>
      rw [List.mapM_cons, ih]
      let behind (head : γ) : Except Fault (List γ) :=
        within (∀ item ∈ rest, fits item) (rest.map value) >>= fun values => pure (head :: values)
      exact (within_bind behind (within_map _)).trans
        (within_congr List.forall_mem_cons.symm rfl)

end Relaxation.Word

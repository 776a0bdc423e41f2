import Relaxation.Proofs.Order
import Relaxation.Proofs.Run

/-!
When a solve stops. The conditions speak of the residuals alone; the default policy carries
just what they need of the past, the least residual so far and the iteration that reached it
first, and forgets what an earlier solve left there.
-/

namespace Relaxation

variable {α : Type}

structure Criteria (α : Type) where
  precision : α
  norm : α
  maxIterations : UInt32
  stallWindow : Option UInt32

variable [Arithmetic α]

structure FirstLeast (residuals : List α) (least : α) (iteration : Nat) : Prop where
  found : ∃ earlier later, residuals = earlier ++ least :: later ∧ iteration = earlier.length + 1 ∧
    ∀ residual ∈ earlier, Arithmetic.lt least residual = true
  least : ∀ residual ∈ residuals, Arithmetic.lt residual least = false

namespace Criteria

variable (criteria : Criteria α) (earlier : List α) (residual : α)

def Converged : Prop :=
  Arithmetic.le residual (criteria.precision * criteria.norm) = true

def Exhausted : Prop :=
  criteria.maxIterations.toNat ≤ earlier.length + 1

def Diverged : Prop :=
  Arithmetic.isFinite residual = false ∨
    Arithmetic.lt (Policy.divergenceFactor * earlier.headD residual) residual = true ∧
      Arithmetic.lt Policy.divergenceFloor residual = true

/-- Not below the least residual so far, which was first reached a window ago. -/
def Stalled : Prop :=
  ∃ window least iteration, criteria.stallWindow = some window ∧
    FirstLeast earlier least iteration ∧ Arithmetic.lt residual least = false ∧
      iteration + window.toNat ≤ earlier.length + 1

/-- The state after a residual and those before it: the first condition that holds names it. -/
inductive Ruling : SolveState → Prop where
  | converged (converged : criteria.Converged residual) : Ruling .converged
  | maxIteration (going : ¬criteria.Converged residual) (exhausted : criteria.Exhausted earlier) :
      Ruling .maxIteration
  | diverged (going : ¬criteria.Converged residual) (counting : ¬criteria.Exhausted earlier)
      (diverged : Diverged earlier residual) : Ruling .diverged
  | stalled (going : ¬criteria.Converged residual) (counting : ¬criteria.Exhausted earlier)
      (bounded : ¬Diverged earlier residual) (stalled : criteria.Stalled earlier residual) :
      Ruling .stalled
  | iterating (going : ¬criteria.Converged residual) (counting : ¬criteria.Exhausted earlier)
      (bounded : ¬Diverged earlier residual) (moving : ¬criteria.Stalled earlier residual) :
      Ruling .iterating

end Criteria

namespace FirstLeast

variable {residuals : List α} {least least' : α} {iteration iteration' : Nat}

theorem mem (first : FirstLeast residuals least iteration) : least ∈ residuals := by
  obtain ⟨earlier, later, rfl, _, _⟩ := first.found
  simp

theorem iteration_le (first : FirstLeast residuals least iteration) :
    iteration ≤ residuals.length := by
  obtain ⟨earlier, later, rfl, rfl, _⟩ := first.found
  simp

theorem iteration_ge (first : FirstLeast residuals least iteration)
    (other : FirstLeast residuals least' iteration') : iteration' ≤ iteration := by
  by_contra later
  obtain ⟨before, after, split, rfl, above⟩ := other.found
  obtain ⟨before', after', split', rfl, _⟩ := first.found
  have member : least ∈ before := by
    have here : residuals[before'.length]? = some least := by simp [split']
    rw [split, List.getElem?_append_left (by omega)] at here
    exact List.mem_of_getElem? here
  exact absurd (above least member) (by simp [first.least least' other.mem])

theorem unique (first : FirstLeast residuals least iteration)
    (other : FirstLeast residuals least' iteration') : least = least' ∧ iteration = iteration' := by
  have same := Nat.le_antisymm (other.iteration_ge first) (first.iteration_ge other)
  refine ⟨?_, same⟩
  obtain ⟨before, after, split, count, _⟩ := first.found
  obtain ⟨before', after', split', count', _⟩ := other.found
  have length : before.length = before'.length := by omega
  have here : residuals[before.length]? = some least := by simp [split]
  rw [length, split', List.getElem?_append_right (Nat.le_refl _)] at here
  simpa using here.symm

theorem single [StrictOrder α] (residual : α) : FirstLeast [residual] residual 1 where
  found := ⟨[], [], rfl, rfl, by simp⟩
  least := by simpa using StrictOrder.irrefl residual

theorem below [StrictOrder α] (first : FirstLeast residuals least iteration)
    (finite : ∀ residual ∈ residuals, Arithmetic.isFinite residual = true) {residual : α}
    (less : Arithmetic.lt residual least = true) :
    FirstLeast (residuals ++ [residual]) residual (residuals.length + 1) := by
  have under : ∀ other ∈ residuals, Arithmetic.lt residual other = true := fun other member =>
    StrictOrder.trans_of_not _ _ _ less (first.least other member) (finite other member)
  refine ⟨⟨residuals, [], rfl, rfl, under⟩, fun other member => ?_⟩
  rcases List.mem_append.mp member with before | same
  · exact StrictOrder.asymm _ _ (under other before)
  · rw [List.mem_singleton.mp same]
    exact StrictOrder.irrefl residual

theorem keep (first : FirstLeast residuals least iteration) {residual : α}
    (above : Arithmetic.lt residual least = false) :
    FirstLeast (residuals ++ [residual]) least iteration := by
  obtain ⟨earlier, later, rfl, count, under⟩ := first.found
  refine ⟨⟨earlier, later ++ [residual], by simp, count, under⟩, fun other member => ?_⟩
  rcases List.mem_append.mp member with before | same
  · exact first.least other before
  · rwa [List.mem_singleton.mp same]

end FirstLeast

namespace Criteria

open Solver

/-- What the policy is told, and what it remembers, behind residuals that it let pass. -/
structure Tracks (criteria : Criteria α) (earlier : List α) (progress : Progress α)
    (memory : Option (Best α)) : Prop where
  iterations : progress.iterations = earlier.length
  maxIterations : progress.maxIterations = criteria.maxIterations
  precision : progress.precision = criteria.precision
  norm : progress.norm = criteria.norm
  initial : progress.initialResidual = earlier.head?
  finite : ∀ residual ∈ earlier, Arithmetic.isFinite residual = true
  /-- Before the first residual the memory may hold anything. -/
  best : earlier ≠ [] → ∃ best, memory = some best ∧
    FirstLeast earlier best.residual best.iteration

variable {criteria : Criteria α} {earlier : List α} {progress : Progress α}
  {memory : Option (Best α)} {residual : α}

theorem Tracks.initial_observed (tracks : criteria.Tracks earlier progress memory) (residual : α) :
    (observed progress residual).initialResidual = some (earlier.headD residual) := by
  unfold observed
  cases earlier with
  | nil => simp [tracks.iterations]
  | cons first rest => simp [tracks.iterations, tracks.initial]

theorem Tracks.verdict_eq (tracks : criteria.Tracks earlier progress memory) (residual : α) :
    verdict (.residual criteria.stallWindow) progress residual memory =
      let best := if earlier = [] then none else memory
      if Arithmetic.le residual (criteria.precision * criteria.norm) then (.converged, best)
      else if criteria.maxIterations.toNat ≤ earlier.length + 1 then (.maxIteration, best)
      else if Policy.diverging residual (earlier.headD residual) then (.diverged, best)
      else
        match best with
        | none => (.iterating, some ⟨residual, earlier.length + 1⟩)
        | some least =>
          if Arithmetic.lt residual least.residual then
            (.iterating, some ⟨residual, earlier.length + 1⟩)
          else if Policy.windowOver criteria.stallWindow (earlier.length + 1) least.iteration then
            (.stalled, best)
          else (.iterating, best) := by
  have first : progress.iterations + 1 ≤ 1 ↔ earlier = [] := by
    rw [tracks.iterations, ← List.length_eq_zero_iff]
    omega
  unfold verdict Policy.residual
  simp only [tracks.initial_observed, Option.getD_some, first]
  generalize (if earlier = [] then none else memory) = best
  cases best <;>
    simp only [observed, tracks.iterations, tracks.maxIterations, tracks.precision, tracks.norm]

theorem diverging_iff (first residual : α) :
    Policy.diverging residual first = true ↔ Arithmetic.isFinite residual = false ∨
      Arithmetic.lt (Policy.divergenceFactor * first) residual = true ∧
        Arithmetic.lt Policy.divergenceFloor residual = true := by
  simp [Policy.diverging]

theorem window_over_iff {window : Option UInt32} {iteration since : Nat}
    (before : since ≤ iteration) : Policy.windowOver window iteration since = true ↔
      ∃ length, window = some length ∧ since + length.toNat ≤ iteration := by
  unfold Policy.windowOver
  cases window with
  | none => simp
  | some length => simp [Nat.le_sub_iff_add_le' before]

theorem not_stalled_nil : ¬criteria.Stalled [] residual := by
  rintro ⟨window, least, iteration, _, first, _⟩
  exact List.not_mem_nil first.mem

theorem stalled_iff {best : Best α} (first : FirstLeast earlier best.residual best.iteration) :
    criteria.Stalled earlier residual ↔ Arithmetic.lt residual best.residual = false ∧
      Policy.windowOver criteria.stallWindow (earlier.length + 1) best.iteration = true := by
  rw [window_over_iff (Nat.le_succ_of_le first.iteration_le)]
  constructor
  · rintro ⟨window, least, iteration, set, other, above, expired⟩
    obtain ⟨rfl, rfl⟩ := other.unique first
    exact ⟨above, window, set, expired⟩
  · rintro ⟨above, window, set, expired⟩
    exact ⟨window, best.residual, best.iteration, set, first, above, expired⟩

/-- One question: the answer is the first condition that holds, and if none does the
policy remembers the least residual with this one among them. -/
theorem Tracks.asked [StrictOrder α] (tracks : criteria.Tracks earlier progress memory)
    (residual : α) :
    criteria.Ruling earlier residual
        (verdict (.residual criteria.stallWindow) progress residual memory).1 ∧
      ((verdict (.residual criteria.stallWindow) progress residual memory).1.terminal = false →
        criteria.Tracks (earlier ++ [residual]) (observed progress residual)
          (verdict (.residual criteria.stallWindow) progress residual memory).2) := by
  have told : ∀ after : Option (Best α), Arithmetic.isFinite residual = true →
      (∃ best, after = some best ∧
        FirstLeast (earlier ++ [residual]) best.residual best.iteration) →
      criteria.Tracks (earlier ++ [residual]) (observed progress residual) after := by
    intro after finite best
    refine ⟨?_, tracks.maxIterations, tracks.precision, tracks.norm, ?_, ?_, fun _ => best⟩
    · simp [observed, tracks.iterations]
    · rw [tracks.initial_observed]
      cases earlier <;> rfl
    · intro other member
      rcases List.mem_append.mp member with before | same
      · exact tracks.finite other before
      · rwa [List.mem_singleton.mp same]
  rw [tracks.verdict_eq]
  dsimp only
  by_cases converged : Arithmetic.le residual (criteria.precision * criteria.norm) = true
  · rw [if_pos converged]
    exact ⟨.converged converged, nofun⟩
  rw [if_neg converged]
  by_cases exhausted : criteria.maxIterations.toNat ≤ earlier.length + 1
  · rw [if_pos exhausted]
    exact ⟨.maxIteration converged exhausted, nofun⟩
  rw [if_neg exhausted]
  by_cases diverging : Policy.diverging residual (earlier.headD residual) = true
  · rw [if_pos diverging]
    exact ⟨.diverged converged exhausted ((diverging_iff _ _).mp diverging),
      nofun⟩
  rw [if_neg diverging]
  have bounded : ¬Diverged earlier residual := fun diverged =>
    diverging ((diverging_iff _ _).mpr diverged)
  have finite : Arithmetic.isFinite residual = true :=
    Bool.not_eq_false _ ▸ fun infinite => bounded (.inl infinite)
  -- only from here on the past counts, and there is none behind the first residual
  by_cases start : earlier = []
  · rw [if_pos start]
    subst start
    exact ⟨.iterating converged exhausted bounded not_stalled_nil,
      fun _ => told _ finite ⟨_, rfl, .single residual⟩⟩
  · obtain ⟨best, rfl, first⟩ := tracks.best start
    rw [if_neg start]
    dsimp only
    by_cases less : Arithmetic.lt residual best.residual = true
    · rw [if_pos less]
      refine ⟨.iterating converged exhausted bounded fun stalled => ?_,
        fun _ => told _ finite ⟨_, rfl, first.below tracks.finite less⟩⟩
      rw [((stalled_iff first).mp stalled).1] at less
      exact Bool.false_ne_true less
    · rw [if_neg less]
      have above := Bool.eq_false_iff.mpr less
      by_cases expired : Policy.windowOver criteria.stallWindow (earlier.length + 1)
          best.iteration = true
      · rw [if_pos expired]
        exact ⟨.stalled converged exhausted bounded ((stalled_iff first).mpr ⟨above, expired⟩),
          nofun⟩
      · rw [if_neg expired]
        exact ⟨.iterating converged exhausted bounded fun stalled =>
          expired ((stalled_iff first).mp stalled).2, fun _ => told _ finite ⟨_, rfl, first.keep above⟩⟩

end Criteria
end Relaxation

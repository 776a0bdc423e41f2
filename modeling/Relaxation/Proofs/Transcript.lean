import Relaxation.Proofs.Run
import Relaxation.Proofs.Standing

/-!
A loop whose neighbors are all at home, with a transcript of its sums. Each iteration goes
from the owned values and zeros for the ghost ones to the next owned values, and the policy
stops it on the residuals that the transcript tells.
-/

namespace Relaxation

variable {α β γ μ : Type}

namespace Collective

/-- A program that ends with this result and makes no calls but these sums, each with the
value it gives and the total it is told. -/
inductive Sums : Collective α β → List (α × α) → β → Prop where
  | done (result : β) : Sums (.done result) [] result
  | sum {value : α} {next : α → Collective α β} {calls : List (α × α)} {result : β} (total : α)
      (rest : Sums (next total) calls result) : Sums (.sum value next) ((value, total) :: calls) result

theorem sums_done_iff {calls : List (α × α)} {result other : β} :
    (Collective.done other : Collective α β).Sums calls result ↔ calls = [] ∧ result = other := by
  constructor
  · rintro ⟨⟩
    exact ⟨rfl, rfl⟩
  · rintro ⟨rfl, rfl⟩
    exact .done _

theorem Sums.ends {program : Collective α β} {calls : List (α × α)} {result : β}
    (sums : program.Sums calls result) : program.Ends result := by
  induction sums with
  | done result => exact .done result
  | sum total _ ih => exact .sum total ih

theorem Sums.bind {program : Collective α β} {next : β → Collective α γ} {early late : List (α × α)}
    {between : β} {result : γ} (first : program.Sums early between)
    (second : (next between).Sums late result) : (program.bind next).Sums (early ++ late) result := by
  induction first with
  | done between => exact second
  | sum total _ ih => exact .sum total (ih second)

theorem Sums.of_bind {program : Collective α β} {next : β → Collective α γ} {calls : List (α × α)}
    {result : γ} (sums : (program.bind next).Sums calls result) :
    ∃ early late between, calls = early ++ late ∧ program.Sums early between ∧
      (next between).Sums late result := by
  induction program generalizing calls with
  | done between => exact ⟨[], calls, between, rfl, .done between, sums⟩
  | sum value rest ih =>
      obtain _ | ⟨total, sums⟩ := sums
      obtain ⟨early, late, between, rfl, first, second⟩ := ih total sums
      exact ⟨_, late, between, rfl, .sum total first, second⟩
  | exchange neighbors owned ghost rest ih => cases sums

/-- Alone a sum is what was given; in a group it is what the group answers. Told the same,
two sums of one value go on from the same total. -/
theorem all_reduce_told {communicator : Communicator} {value total total' : α}
    {now now' later later' : List (α × α)} (first : (allReduceSum communicator value).Sums now total)
    (second : (allReduceSum communicator value).Sums now' total')
    (told : (now ++ later).map Prod.snd = (now' ++ later').map Prod.snd) :
    total = total' ∧ now = now' ∧ later.map Prod.snd = later'.map Prod.snd := by
  cases communicator with
  | alone =>
      obtain ⟨rfl, rfl⟩ := sums_done_iff.mp first
      obtain ⟨rfl, rfl⟩ := sums_done_iff.mp second
      exact ⟨rfl, rfl, told⟩
  | member rank ranks =>
      obtain _ | ⟨answer, first⟩ := first
      obtain ⟨rfl, rfl⟩ := sums_done_iff.mp first
      obtain _ | ⟨answer', second⟩ := second
      obtain ⟨rfl, rfl⟩ := sums_done_iff.mp second
      obtain ⟨rfl, same⟩ := List.cons.inj told
      exact ⟨rfl, rfl, same⟩

end Collective

open Collective

variable [Arithmetic α]

namespace Share

def padded (share : Share α) (x : Array α) : Array α :=
  x ++ Array.replicate ((share.matrix.columns - share.matrix.rows) * share.matrix.blockSize) 0

/-- Rounds of a loop from some owned values to others, with the totals that their sums of
squares come to and the calls that were made for them. -/
inductive Rounds (share : Share α) : Array α → List α → List (α × α) → Array α → Prop where
  | none (x : Array α) : Rounds share x [] [] x
  | more {x last : Array α} {total : α} {totals : List α} {now later : List (α × α)}
      (summed : (allReduceSum share.communicator (share.square (share.padded x))).Sums now total)
      (rest : Rounds share (share.next (share.padded x)) totals later last) :
      Rounds share x (total :: totals) (now ++ later) last

section Rounds

variable {share : Share α} {x middle last last' : Array α} {totals totals' early late : List α}
  {calls calls' before after : List (α × α)}

theorem Rounds.append (first : share.Rounds x early before middle)
    (second : share.Rounds middle late after last) :
    share.Rounds x (early ++ late) (before ++ after) last := by
  induction first with
  | none x => exact second
  | more summed _ ih =>
      rw [List.append_assoc]
      exact .more summed (ih second)

theorem Rounds.split (rounds : share.Rounds x (early ++ late) calls last) :
    ∃ middle before after, calls = before ++ after ∧ share.Rounds x early before middle ∧
      share.Rounds middle late after last := by
  induction early generalizing x calls with
  | nil => exact ⟨x, [], calls, rfl, .none x, rounds⟩
  | cons total early ih =>
      obtain _ | ⟨summed, rest⟩ := rounds
      obtain ⟨middle, before, after, rfl, first, second⟩ := ih rest
      exact ⟨middle, _, after, (List.append_assoc ..).symm, .more summed first, second⟩

theorem Rounds.determined (first : share.Rounds x totals calls last)
    (second : share.Rounds x totals' calls' last') (length : totals.length = totals'.length)
    (told : calls.map Prod.snd = calls'.map Prod.snd) :
    totals = totals' ∧ calls = calls' ∧ last = last' := by
  induction first generalizing totals' calls' with
  | none x =>
      cases second with
      | none => exact ⟨rfl, rfl, rfl⟩
      | more => cases length
  | more summed _ ih =>
      cases second with
      | none => cases length
      | more summed' rest =>
          obtain ⟨rfl, rfl, told'⟩ := all_reduce_told summed summed' told
          obtain ⟨rfl, rfl, rfl⟩ := ih rest (Nat.succ.inj length) told'
          exact ⟨rfl, rfl, rfl⟩

theorem padded_owned (share : Share α) {x : Array α}
    (size : x.size = share.matrix.rows * share.matrix.blockSize) {index : Nat}
    (owned : index < share.matrix.rows * share.matrix.blockSize) :
    (share.padded x)[index]? = x[index]? :=
  Array.getElem?_append_left (size ▸ owned)

theorem padded_ghost (share : Share α) (covers : share.matrix.rows ≤ share.matrix.columns)
    {x : Array α} (size : x.size = share.matrix.rows * share.matrix.blockSize) {index : Nat}
    (behind : ¬ index < share.matrix.rows * share.matrix.blockSize)
    (inside : index < share.matrix.columns * share.matrix.blockSize) :
    (share.padded x)[index]? = some 0 := by
  have split : share.matrix.columns * share.matrix.blockSize =
      share.matrix.rows * share.matrix.blockSize +
        (share.matrix.columns - share.matrix.rows) * share.matrix.blockSize := by
    rw [← Nat.add_mul, Nat.add_sub_cancel' covers]
  rw [padded, Array.getElem?_append_right (size ▸ Nat.le_of_not_lt behind), size,
    Array.getElem?_replicate, if_pos (by omega)]

end Rounds
end Share

namespace Solver

inductive StopsOn (policy : Policy α μ) : Progress α → μ → List α → Prop where
  | now {progress : Progress α} {memory : μ} {residual : α}
      (stopped : (verdict policy progress residual memory).1.terminal = true) :
      StopsOn policy progress memory [residual]
  | later {progress : Progress α} {memory : μ} {residual : α} {rest : List α}
      (going : (verdict policy progress residual memory).1.terminal = false)
      (stops : StopsOn policy (observed progress residual)
        (verdict policy progress residual memory).2 rest) :
      StopsOn policy progress memory (residual :: rest)

end Solver

namespace Matrix

/-- A matrix whose halo, if it has one, meets no other rank and splits off what it owns. -/
def Lone (matrix : Matrix α) : Prop :=
  ∀ halo ∈ matrix.halo, halo.communicator = .alone ∧ halo.blockSize = matrix.blockSize

omit [Arithmetic α] in
theorem refresh_of_lone {matrix : Matrix α} (lone : matrix.Lone) {input : Buffer} {device : Device α}
    (long : matrix.rows * matrix.blockSize ≤ (device.contents input).size) :
    matrix.refresh input device = .done (.ok (), device) := by
  cases present : matrix.halo with
  | none => exact refresh_alone present input device
  | some halo =>
      obtain ⟨alone, same⟩ := lone halo present
      rw [refresh_lone present alone (same ▸ long), same]
      have whole : (device.contents input).extract 0 (matrix.rows * matrix.blockSize) ++
          (device.contents input).extract (matrix.rows * matrix.blockSize)
            (device.contents input).size = device.contents input := by
        simp [long]
      rw [whole, Device.store_contents]

end Matrix

namespace Solver

/-- A device between two iterations, since the loop was entered on `entry`. Both iterates hold
`x`, with zeros for the ghost values, and what lies behind it in the iterate is what lay
there. -/
structure Resting (share : Share α) (sweep : Sweep) (entry : Device α) (x : Array α)
    (device : Device α) : Prop where
  carries : Carries share.matrix sweep share.sources x device
  kernel : sweep.kernel = share.kernel
  geometry : sweep.geometry = share.geometry
  size : x.size = share.matrix.rows * share.matrix.blockSize
  sizes : device.sizes = entry.sizes
  iterate : device.contents sweep.iterate =
    Storage.overwrite (entry.contents sweep.iterate) 0 x.toList
  previous : ∀ index, index < share.matrix.columns * share.matrix.blockSize →
    (device.contents sweep.previous)[index]? = (share.padded x)[index]?

section Loop

variable {share : Share α} {sweep : Sweep} {entry device after : Device α} {x : Array α}

theorem Resting.of_alike (resting : Resting share sweep entry x device)
    (alike : after.Alike device) : Resting share sweep entry x after where
  carries := resting.carries.of_alike alike
  kernel := resting.kernel
  geometry := resting.geometry
  size := resting.size
  sizes := by
    rw [← resting.sizes]
    simp only [Device.sizes, alike.buffers]
  iterate := (alike.contents _).trans resting.iterate
  previous index inside := by
    rw [alike.contents]
    exact resting.previous index inside

theorem Resting.long (resting : Resting share sweep entry x device) :
    share.matrix.columns * share.matrix.blockSize ≤ (share.padded x).size := by
  have covers := resting.carries.fitting.sound.covers
  unfold Share.padded
  rw [Array.size_append, Array.size_replicate, resting.size, ← Nat.add_mul]
  exact Nat.mul_le_mul_right _ (by omega)

theorem Resting.square (resting : Resting share sweep entry x device) :
    Solver.square share.matrix sweep device = share.square (share.padded x) := by
  rw [square_eq resting.carries.fitting resting.long resting.previous, resting.carries.sources,
    resting.kernel, resting.geometry]
  rfl

theorem Resting.advance (resting : Resting share sweep entry x device)
    (advanced : Advanced share.matrix sweep device after) :
    Resting share sweep entry (share.next (share.padded x)) after := by
  have fitting := resting.carries.fitting
  have next : Solver.next share.matrix sweep.kernel (device.sources sweep) (share.padded x) =
      share.next (share.padded x) := by
    rw [resting.carries.sources, resting.kernel]
    rfl
  have values := advance_eq fitting resting.long resting.previous
  have carries := advanced.carries fitting resting.long resting.previous
  rw [next] at values carries
  rw [resting.carries.sources] at carries
  have covers := Nat.mul_le_mul_right share.matrix.blockSize fitting.sound.covers
  have size : (share.next (share.padded x)).size = share.matrix.rows * share.matrix.blockSize := by
    rw [← next]
    exact size_next fitting.blockSize.symm fitting.covered (covers.trans resting.long)
  refine ⟨carries, resting.kernel, resting.geometry, size, advanced.sizes.trans resting.sizes, ?_,
    fun index inside => ?_⟩
  · rw [advanced.iterate, values, resting.iterate, Storage.overwrite_overwrite]
    rw [Array.length_toList, Array.length_toList, size, resting.size]
  · by_cases owned : index < share.matrix.rows * share.matrix.blockSize
    · rw [carries.previous index owned, share.padded_owned size owned]
    · -- no sweep writes behind the owned values
      have kept : (after.contents sweep.previous)[index]? =
          (device.contents sweep.previous)[index]? := by
        rw [advanced.previous, values, Storage.getElem?_overwrite_outside]
        rw [Array.length_toList, size]
        exact .inr (by omega)
      rw [kept, resting.previous index inside,
        share.padded_ghost fitting.sound.covers resting.size owned inside,
        share.padded_ghost fitting.sound.covers size owned inside]

variable [SquareRoot α] {solver : Solver α} {policy : Policy α μ} {origin : ScratchOrigin}

theorem iterate_round (lone : share.matrix.Lone)
    (communicator : solver.communicator = share.communicator) (policy : Policy α μ)
    (origin : ScratchOrigin) (remaining : Nat) (progress : Progress α) (history : Array α)
    (scope : SolveScope α μ) (resting : Resting share sweep entry x scope.device) :
    ∃ after : α → SolveScope α μ,
      solver.iterate share.matrix policy sweep origin (remaining + 1) .direct progress history scope =
        (allReduceSum share.communicator (share.square (share.padded x))).bind (fun total =>
          if (verdict policy progress (SquareRoot.root total) scope.memory).1.terminal then
            .done (.ok (stopped origin progress history (SquareRoot.root total)
              (verdict policy progress (SquareRoot.root total) scope.memory).1), after total)
          else solver.iterate share.matrix policy sweep origin remaining .direct
            (observed progress (SquareRoot.root total)) (history.push (SquareRoot.root total))
            (after total)) ∧
      ∀ total, Resting share sweep entry (share.next (share.padded x)) (after total).device ∧
        (after total).memory = (verdict policy progress (SquareRoot.root total) scope.memory).2 := by
  have fitting := resting.carries.fitting
  have long : share.matrix.rows * share.matrix.blockSize ≤
      (scope.device.contents sweep.previous).size :=
    (Nat.mul_le_mul_right _ fitting.sound.covers).trans fitting.extended
  -- nobody is in the halo, so a refresh leaves the device as it is
  have refreshed : (SolveM.onDevice (share.matrix.refresh sweep.previous) : SolveM α μ Unit) scope =
      .done (.ok (), scope) := by
    unfold SolveM.onDevice
    rw [Matrix.refresh_of_lone lone long]
    rfl
  obtain ⟨swept, ran, advanced⟩ := finish_sweep_run solver scope fitting
  have judged := fun total => solver.judge_run share.matrix policy sweep origin remaining .direct
    progress history (SquareRoot.root total) { scope with device := swept }
  choose after alike memory judged using judged
  refine ⟨after, ?_, fun total => ⟨(resting.advance advanced).of_alike (alike total), memory total⟩⟩
  rw [iterate_succ, meet_bind, sweep_once_eq solver .direct fitting, meet_of_done refreshed, ran,
    communicator, resting.square, Collective.bind_assoc]
  congr 1
  funext total
  exact judged total

structure Passed (share : Share α) (sweep : Sweep) (entry : Device α) (progress : Progress α)
    (history : Array α) (x : Array α) (totals : List α) (calls : List (α × α)) (x' : Array α)
    (outcome : Outcome α) (after : Device α) : Prop where
  rounds : share.Rounds x totals calls x'
  resting : Resting share sweep entry x' after
  iterations : outcome.iterations = progress.iterations + totals.length
  history : outcome.history = history ++ totals.map SquareRoot.root

theorem Passed.stopped {progress : Progress α} {history : Array α} {total : α}
    {calls : List (α × α)}
    (summed : (allReduceSum share.communicator (share.square (share.padded x))).Sums calls total)
    (resting : Resting share sweep entry (share.next (share.padded x)) after)
    (origin : ScratchOrigin) (state : SolveState) :
    Passed share sweep entry progress history x [total] (calls ++ [])
      (share.next (share.padded x))
      (Solver.stopped origin progress history (SquareRoot.root total) state) after :=
  ⟨.more summed (.none _), resting, rfl, by simp [Solver.stopped]⟩

theorem Passed.more {progress : Progress α} {history : Array α} {total : α} {totals : List α}
    {now later : List (α × α)} {x' : Array α} {outcome : Outcome α}
    (summed : (allReduceSum share.communicator (share.square (share.padded x))).Sums now total)
    (passed : Passed share sweep entry (observed progress (SquareRoot.root total))
      (history.push (SquareRoot.root total)) (share.next (share.padded x)) totals later x' outcome
      after) :
    Passed share sweep entry progress history x (total :: totals) (now ++ later) x' outcome after := by
  refine ⟨.more summed passed.rounds, passed.resting, ?_, ?_⟩
  · rw [passed.iterations, List.length_cons, Nat.add_comm totals.length, ← Nat.add_assoc]
    rfl
  · rw [passed.history]
    simp

/-- A loop that ends with an outcome has gone through rounds on whose residuals its policy
stops. The induction is on what the iteration counter can still count. -/
theorem iterate_sums (lone : share.matrix.Lone)
    (communicator : solver.communicator = share.communicator) (remaining : Nat)
    {progress : Progress α} {history : Array α} (scope : SolveScope α μ) {last : SolveScope α μ}
    {calls : List (α × α)} {outcome : Outcome α}
    (resting : Resting share sweep entry x scope.device)
    (sums : (solver.iterate share.matrix policy sweep origin remaining .direct progress history
      scope).Sums calls (.ok outcome, last)) :
    ∃ totals x', Passed share sweep entry progress history x totals calls x' outcome last.device ∧
      StopsOn policy progress scope.memory (totals.map SquareRoot.root) ∧
      totals.length ≤ remaining := by
  induction remaining generalizing x progress history scope calls with
  | zero =>
      obtain ⟨_, failed⟩ := sums_done_iff.mp sums
      cases failed
  | succ remaining ih =>
      obtain ⟨after, ran, rests⟩ := iterate_round lone communicator policy origin remaining progress
        history scope resting
      rw [ran] at sums
      obtain ⟨now, later, total, rfl, summed, rest⟩ := sums.of_bind
      obtain ⟨resting', memory⟩ := rests total
      split at rest
      · rename_i stops
        obtain ⟨rfl, ended⟩ := sums_done_iff.mp rest
        cases ended
        exact ⟨[total], _, .stopped summed resting' origin _, .now stops, by simp⟩
      · rename_i going
        obtain ⟨totals, x', passed, stops, room⟩ := ih _ resting' rest
        rw [memory] at stops
        exact ⟨total :: totals, x', passed.more summed, .later (Bool.eq_false_iff.mpr going) stops,
          Nat.succ_le_succ room⟩

theorem iterate_of_rounds (lone : share.matrix.Lone)
    (communicator : solver.communicator = share.communicator) {progress : Progress α}
    {memory : μ} {x' : Array α} {totals : List α} {calls : List (α × α)}
    (rounds : share.Rounds x totals calls x')
    (stops : StopsOn policy progress memory (totals.map SquareRoot.root)) (remaining : Nat)
    (room : totals.length ≤ remaining) (history : Array α) (scope : SolveScope α μ)
    (resting : Resting share sweep entry x scope.device) (remembered : scope.memory = memory) :
    ∃ outcome last, (solver.iterate share.matrix policy sweep origin remaining .direct progress
        history scope).Sums calls (.ok outcome, last) ∧
      Passed share sweep entry progress history x totals calls x' outcome last.device := by
  induction rounds generalizing progress memory remaining history scope with
  | none x => cases stops
  | @more x x' total totals now later summed rest ih =>
      obtain ⟨remaining, rfl⟩ := Nat.exists_eq_add_of_le' (Nat.le_of_add_left_le room)
      obtain ⟨after, ran, rests⟩ := iterate_round lone communicator policy origin remaining progress
        history scope resting
      obtain ⟨resting', kept⟩ := rests total
      rw [ran]
      rw [remembered] at kept ⊢
      rw [List.map_cons] at stops
      -- the residuals are an index of the stop, so its cases need them as a variable
      generalize residuals : totals.map SquareRoot.root = left at stops ih
      cases stops with
      | now stopped =>
          obtain rfl := List.map_eq_nil_iff.mp residuals
          cases rest
          refine ⟨_, after total, summed.bind ?_, .stopped summed resting' origin
            (verdict policy progress (SquareRoot.root total) memory).1⟩
          rw [if_pos stopped]
          exact .done _
      | later going stops =>
          obtain ⟨outcome, last, sums, passed⟩ := ih stops remaining (Nat.le_of_succ_le_succ room)
            (history.push (SquareRoot.root total)) (after total) resting' kept
          refine ⟨outcome, last, summed.bind ?_, passed.more summed⟩
          rwa [if_neg (by simp [going])]

end Loop
end Solver
end Relaxation

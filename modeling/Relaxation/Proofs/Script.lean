import Mathlib
import Relaxation.Group

/-!
The calls of ranks that decide by what they all hear. A script is the calls of a program as
a function of the sums alone, and a rank follows it until it fails. A run of a group is
kept with the calls that each rank has entered on it.
-/

namespace Relaxation

variable {α β δ : Type}

inductive Call where
  | sum
  | exchange
  deriving DecidableEq, Repr

/-- Calls that depend on the sums and on nothing else, and what there is to show behind
them, if a rank can get there without a failure. -/
inductive Script (α δ : Type) where
  | stop (shown : Option δ)
  | sum (next : α → Script α δ)
  | exchange (next : Script α δ)

namespace Script

def call? : Script α δ → Option Call
  | .stop _ => none
  | .sum _ => some .sum
  | .exchange _ => some .exchange

def next (script : Script α δ) (total : α) : Script α δ :=
  match script with
  | .stop shown => .stop shown
  | .sum next => next total
  | .exchange next => next

def after (script : Script α δ) (totals : Nat → α) : Nat → Script α δ
  | 0 => script
  | rounds + 1 => (script.after totals rounds).next (totals rounds)

def calls (script : Script α δ) (totals : Nat → α) : Nat → List Call
  | 0 => []
  | rounds + 1 => script.calls totals rounds ++ (script.after totals rounds).call?.toList

inductive Shows : Script α δ → Option δ → Prop where
  | stop (shown : Option δ) : Shows (.stop shown) shown
  | sum {next : α → Script α δ} {shown : Option δ} (total : α) (rest : Shows (next total) shown) :
      Shows (.sum next) shown
  | exchange {next : Script α δ} {shown : Option δ} (rest : Shows next shown) :
      Shows (.exchange next) shown

variable {script : Script α δ} {totals totals' : Nat → α} {first last : Nat} {shown : Option δ}

theorem after_congr (same : ∀ round < last, totals round = totals' round) :
    script.after totals last = script.after totals' last := by
  induction last with
  | zero => rfl
  | succ last ih =>
      rw [after, after, ih fun round before => same round (Nat.lt_succ_of_lt before),
        same last (Nat.lt_succ_self last)]

theorem calls_congr (same : ∀ round < last, totals round = totals' round) :
    script.calls totals last = script.calls totals' last := by
  induction last with
  | zero => rfl
  | succ last ih =>
      have earlier : ∀ round < last, totals round = totals' round := fun round before =>
        same round (Nat.lt_succ_of_lt before)
      rw [calls, calls, ih earlier, after_congr earlier]

theorem calls_prefix (before : first ≤ last) :
    script.calls totals first <+: script.calls totals last := by
  induction before with
  | refl => exact List.prefix_refl _
  | step _ ih => exact ih.trans (List.prefix_append _ _)

theorem after_stop (stopped : script.after totals first = .stop shown) (before : first ≤ last) :
    script.after totals last = .stop shown ∧ script.calls totals last = script.calls totals first := by
  induction before with
  | refl => exact ⟨stopped, rfl⟩
  | step _ ih =>
      obtain ⟨still, same⟩ := ih
      rw [after, calls, still, same]
      exact ⟨rfl, List.append_nil _⟩

theorem Shows.of_after (before : first ≤ last) (shows : (script.after totals last).Shows shown) :
    (script.after totals first).Shows shown := by
  induction before with
  | refl => exact shows
  | @step last _ ih =>
      apply ih
      rw [after] at shows
      cases left : script.after totals last with
      | stop other => rwa [left] at shows
      | sum next =>
          rw [left] at shows
          exact .sum _ shows
      | exchange next =>
          rw [left] at shows
          exact .exchange shows

end Script

/-- A program that makes the calls of a script until it fails, and if it does not, has in the
end what the script shows. An exchange that is not answered is a failure. -/
inductive Follows (view : β → Option δ) : Collective α β → Script α δ → Prop where
  | failed {result : β} {script : Script α δ} (lost : view result = none) :
      Follows view (.done result) script
  | stop (result : β) : Follows view (.done result) (.stop (view result))
  | sum {value : α} {next : α → Collective α β} {script : α → Script α δ}
      (rest : ∀ total, Follows view (next total) (script total)) :
      Follows view (.sum value next) (.sum script)
  | exchange {neighbors : List Neighbor} {owned ghost : Array α}
      {next : Exchanged α → Collective α β} {script : Script α δ}
      (answered : ∀ filled, Follows view (next (.ok (), filled)) script)
      (unanswered : ∀ fault filled, ∃ result,
        next (.error fault, filled) = .done result ∧ view result = none) :
      Follows view (.exchange neighbors owned ghost next) (.exchange script)

def Thread.enters : Thread α β → Option Call
  | .put _ _ => some .sum
  | .post _ _ => some .exchange
  | _ => none

theorem Thread.enters_of_program (program : Collective α β) :
    program.thread.enters = match program with
      | .done _ => none
      | .sum _ _ => some .sum
      | .exchange _ _ _ _ => some .exchange := by
  cases program with
  | done | sum => rfl
  | exchange neighbors owned ghost next =>
      unfold Collective.thread
      rcases parcels owned neighbors with ⟨packed, _ | _⟩ <;> rfl

theorem Follows.enters {view : β → Option δ} {program : Collective α β} {script : Script α δ}
    (follows : Follows view program script) :
    program.thread.enters.toList <+: script.call?.toList := by
  rw [Thread.enters_of_program]
  cases follows with
  | failed => exact List.nil_prefix
  | stop | sum | exchange => exact List.prefix_refl _

namespace Group

variable [Arithmetic α]

def entering (entered : Nat → List Call) (rank : Nat) (thread : Thread α β) : Nat → List Call :=
  Function.update entered rank (entered rank ++ thread.enters.toList)

/-- A run of a group, with the calls that each rank has entered: those it is through, and
the one it is in or about to begin. -/
inductive Runs (programs : List (Collective α β)) : State α β → (Nat → List Call) → Prop where
  | start : Runs programs (start programs) fun rank =>
      (programs[rank]?.bind fun program => program.thread.enters).toList
  | access {state : State α β} {entered : Nat → List Call} {rank : Nat} {member : Member α β}
      {thread : Thread α β} {shared : Shared α} (before : Runs programs state entered)
      (found : state.members[rank]? = some member)
      (moved : member.thread.access rank state.shared = some (thread, shared)) :
      Runs programs ⟨shared, state.members.set rank { member with thread := thread }⟩
        (entering entered rank thread)
  | pass {state : State α β} {entered : Nat → List Call} {rank : Nat} {member : Member α β}
      {thread : Thread α β} (before : Runs programs state entered)
      (found : state.members[rank]? = some member)
      (moved : member.thread.pass? = some thread)
      (reached : ∀ other ∈ state.members, member.passed < other.arrived) :
      Runs programs ⟨state.shared, state.members.set rank ⟨thread, member.passed + 1⟩⟩
        (entering entered rank thread)

theorem steps_iff_runs {programs : List (Collective α β)} {state : State α β} :
    Steps (start programs) state ↔ ∃ entered, Runs programs state entered := by
  constructor
  · intro steps
    induction steps with
    | refl => exact ⟨_, .start⟩
    | tail _ step ih =>
        obtain ⟨entered, before⟩ := ih
        cases step with
        | access found moved => exact ⟨_, before.access found moved⟩
        | pass found moved reached => exact ⟨_, before.pass found moved reached⟩
  · rintro ⟨entered, runs⟩
    induction runs with
    | start => exact .refl _
    | access _ found moved ih => exact ih.tail (.access found moved)
    | pass _ found moved reached ih => exact ih.tail (.pass found moved reached)

end Group
end Relaxation

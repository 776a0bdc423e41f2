import Relaxation.Arithmetic
import Relaxation.Storage

/-!
Programs that one rank runs and that meet other ranks in collective calls. The
program is kept apart from the group that answers it: the same program runs
alone, or interleaved with those of other ranks.
-/

namespace Relaxation

/-- What one rank exchanges with another: the owned values it sends, and the run
of its ghost values that the other rank fills. -/
structure Neighbor where
  rank : Nat
  sent : List Nat
  start : Nat
  count : Nat
  deriving DecidableEq, Repr

namespace Neighbor

variable {α : Type}

def gather (neighbor : Neighbor) (owned : Array α) : Except Fault (Array α) := do
  pure (← neighbor.sent.mapM (Storage.fetch owned)).toArray

def stop (neighbor : Neighbor) : Nat :=
  neighbor.start + neighbor.count

def store (neighbor : Neighbor) (ghost : Array α) (data : Array α) :
    Except Fault (Array α) :=
  Storage.copyInto ghost neighbor.start neighbor.count data

end Neighbor

inductive Communicator where
  | alone
  | member (rank ranks : Nat)
  deriving DecidableEq, Repr

namespace Communicator

def rank : Communicator → Nat
  | .alone => 0
  | .member rank _ => rank

def ranks : Communicator → Nat
  | .alone => 1
  | .member _ ranks => ranks

end Communicator

/-- Answer to an exchange: whether it went through, and the ghost values then. -/
abbrev Exchanged (α : Type) := Except Fault Unit × Array α

/-- A computation that stops at every collective call for the group's answer. -/
inductive Collective (α β : Type) where
  | done (result : β)
  | sum (value : α) (next : α → Collective α β)
  | exchange (neighbors : List Neighbor) (owned ghost : Array α)
      (next : Exchanged α → Collective α β)

namespace Collective

variable {α β γ : Type}

def bind : Collective α β → (β → Collective α γ) → Collective α γ
  | .done result, continuation => continuation result
  | .sum value next, continuation => .sum value fun total => (next total).bind continuation
  | .exchange neighbors owned ghost next, continuation =>
    .exchange neighbors owned ghost fun answer => (next answer).bind continuation

instance : Monad (Collective α) where
  pure := .done
  bind := bind

@[simp] theorem pure_eq_done (result : β) : (pure result : Collective α β) = .done result :=
  rfl

@[simp] theorem done_bind (result : β) (continuation : β → Collective α γ) :
    (Collective.done result >>= continuation) = continuation result :=
  rfl

theorem bind_done (program : Collective α β) : program.bind .done = program := by
  induction program with
  | done result => rfl
  | sum value next ih => simp only [bind, ih]
  | exchange neighbors owned ghost next ih => simp only [bind, ih]

theorem bind_assoc {δ : Type} (program : Collective α β) (first : β → Collective α γ)
    (second : γ → Collective α δ) :
    (program.bind first).bind second = program.bind fun result => (first result).bind second := by
  induction program with
  | done result => rfl
  | sum value next ih => simp only [bind, ih]
  | exchange neighbors owned ghost next ih => simp only [bind, ih]

instance : LawfulMonad (Collective α) :=
  LawfulMonad.mk' _ bind_done (fun _ _ => rfl) bind_assoc

def allReduceSum (communicator : Communicator) (value : α) : Collective α α :=
  match communicator with
  | .alone => .done value
  | .member _ _ => .sum value .done

def haloExchange (communicator : Communicator) (neighbors : List Neighbor)
    (owned ghost : Array α) : Collective α (Exchanged α) :=
  match communicator with
  | .alone => .done (.ok (), ghost)
  | .member _ _ => .exchange neighbors owned ghost .done

end Collective
end Relaxation

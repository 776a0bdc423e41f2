import Relaxation.Arithmetic

/-!
Solve states and the policies that choose them. A policy sees the iteration
number and the global residual, so ranks with the same residuals agree.
-/

namespace Relaxation

inductive SolveState where
  | iterating
  | converged
  | maxIteration
  | diverged
  | stalled
  deriving DecidableEq, Repr

namespace SolveState

def terminal (state : SolveState) : Bool :=
  state != .iterating

def text : SolveState → String
  | .iterating => "iterating"
  | .converged => "converged"
  | .maxIteration => "max iteration"
  | .diverged => "diverged"
  | .stalled => "stalled"

end SolveState

structure Progress (α : Type) where
  name : String
  verbosity : Nat
  iterations : Nat
  maxIterations : UInt32
  precision : α
  norm : α
  /-- Last residual, none before the first iteration is complete. -/
  residual : Option α
  initialResidual : Option α

def Progress.start {α : Type} (name : String) (verbosity : Nat) (maxIterations : UInt32)
    (precision norm : α) : Progress α where
  name := name
  verbosity := verbosity
  iterations := 0
  maxIterations := maxIterations
  precision := precision
  norm := norm
  residual := none
  initialResidual := none

/-- The last residual as a number, infinite as long as there is none. -/
def Progress.residualOrInfinity (progress : Progress Float) : Float :=
  progress.residual.getD (1.0 / 0.0)

/-- Decides the next state. What it remembers between queries is of type `μ`. -/
structure Policy (α μ : Type) where
  test : Nat → α → Progress α → μ → SolveState × μ

structure Best (α : Type) where
  residual : α
  iteration : Nat

namespace Policy

variable {α : Type} [Arithmetic α]

def divergenceFactor : α := 1.0e4

def divergenceFloor : α := 100.0

def diverging (residual initial : α) : Bool :=
  !Arithmetic.isFinite residual ||
    (Arithmetic.lt (divergenceFactor * initial) residual &&
      Arithmetic.lt divergenceFloor residual)

def windowOver (stallWindow : Option UInt32) (iteration since : Nat) : Bool :=
  match stallWindow with
  | some window => window.toNat ≤ iteration - since
  | none => false

/-- The default policy: relative precision, iteration cap, divergence guard and
an optional stall window. It forgets its minimum when a solve starts over. -/
def residual (stallWindow : Option UInt32) : Policy α (Option (Best α)) where
  test iteration residual progress remembered :=
    let best := if iteration ≤ 1 then none else remembered
    if Arithmetic.le residual (progress.precision * progress.norm) then (.converged, best)
    else if progress.maxIterations.toNat ≤ iteration then (.maxIteration, best)
    else if diverging residual (progress.initialResidual.getD residual) then (.diverged, best)
    else
      match best with
      | none => (.iterating, some ⟨residual, iteration⟩)
      | some least =>
        if Arithmetic.lt residual least.residual then (.iterating, some ⟨residual, iteration⟩)
        else if windowOver stallWindow iteration least.iteration then (.stalled, best)
        else (.iterating, best)

end Policy
end Relaxation

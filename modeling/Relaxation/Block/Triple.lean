import Relaxation.Arithmetic
import Relaxation.Block

/-!
The unrolled forms of factorization, substitution and products for three
components.
-/

namespace Relaxation.Block

variable {α : Type} [Arithmetic α]

def factorTriple (block : Block α 3) : Except α (Block α 3) := do
  let pivot0 := block.entry 0 0
  unless Arithmetic.usable pivot0 do throw pivot0
  let lower10 := block.entry 1 0 / pivot0
  let pivot1 := block.entry 1 1 - lower10 * block.entry 0 1
  let upper12 := block.entry 1 2 - lower10 * block.entry 0 2
  unless Arithmetic.usable pivot1 do throw pivot1
  let lower20 := block.entry 2 0 / pivot0
  let lower21 := (block.entry 2 1 - lower20 * block.entry 0 1) / pivot1
  let pivot2 := block.entry 2 2 - lower20 * block.entry 0 2 - lower21 * upper12
  unless Arithmetic.usable pivot2 do throw pivot2
  pure ⟨#v[
    pivot0, block.entry 0 1, block.entry 0 2,
    lower10, pivot1, upper12,
    lower20, lower21, pivot2]⟩

def substituteTriple (factor : Block α 3) (rhs : Vector α 3) : Vector α 3 :=
  let solved0 := rhs.get 0
  let solved1 := rhs.get 1 - solved0 * factor.entry 1 0
  let solved2 := rhs.get 2 - solved0 * factor.entry 2 0 - solved1 * factor.entry 2 1
  let x2 := solved2 / factor.entry 2 2
  let x1 := (solved1 - factor.entry 1 2 * x2) / factor.entry 1 1
  let x0 := (solved0 - factor.entry 0 1 * x1 - factor.entry 0 2 * x2) / factor.entry 0 0
  #v[x0, x1, x2]

def differenceTriple (a b : Vector α 3) : Vector α 3 :=
  #v[a.get 0 - b.get 0, a.get 1 - b.get 1, a.get 2 - b.get 2]

/-- Unrolled product of one row. It starts from its first term and not from zero. -/
def rowTriple (block : Block α 3) (j : Fin 3) (x : Vector α 3) : α :=
  block.entry j 0 * x.get 0 + block.entry j 1 * x.get 1 + block.entry j 2 * x.get 2

end Relaxation.Block

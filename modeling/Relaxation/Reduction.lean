import Relaxation.Arithmetic
import Relaxation.Fault

/-!
The two-level sum of a launch. Inside a thread block a scratch vector is halved
until one warp can finish it with six fixed steps. A second launch of a single
block adds the block partials with a grid stride and halves again. The order of
additions depends on the block width only.
-/

namespace Relaxation.Reduction

variable {α : Type} [Arithmetic α]

def warpSize : Nat := 32

def isPowerOfTwo (n : Nat) : Bool :=
  n == Nat.pow 2 n.log2

/-- Widths whose halving reaches the tail at exactly two warps. -/
def validWidth (width : Nat) : Bool :=
  isPowerOfTwo width && 2 * warpSize ≤ width

/-- Adds the `offset` values behind the first `offset` values to these. The
upper half keeps its old values. -/
def treeStep (scratch : Array α) (offset : Nat) : Except Fault (Array α) :=
  if inside : 2 * offset ≤ scratch.size then
    .ok <| scratch.mapFinIdx fun index value _ =>
      if low : index < offset then
        have high : index + offset < scratch.size := by omega
        value + scratch[index + offset]
      else value
  else
    .error .outOfRange

def halve (stride : Nat) (scratch : Array α) : Except Fault (Array α) :=
  if warpSize < stride then do
    halve (stride / 2) (← treeStep scratch stride)
  else
    .ok scratch
termination_by stride
decreasing_by simp only [warpSize] at *; omega

def warpTail (scratch : Array α) : Except Fault (Array α) :=
  [32, 16, 8, 4, 2, 1].foldlM treeStep scratch

def blockReduce (scratch : Array α) : Except Fault (α × Array α) :=
  if validWidth scratch.size then do
    let scratch ← warpTail (← halve (scratch.size / 2) scratch)
    match scratch[0]? with
    | some total => .ok (total, scratch)
    | none => .error .outOfRange
  else
    .error .reductionWidth

def strideSum (values : Array α) (threads index : Nat) : α :=
  (List.range' index ((values.size - index + threads - 1) / threads) threads).foldl
    (fun sum i => match values[i]? with
      | some value => sum + value
      | none => sum)
    0

def reducePartials (values : Array α) (threads : Nat) : Except Fault α := do
  let scratch := (Array.range threads).map (strideSum values threads)
  pure (← blockReduce scratch).1

end Relaxation.Reduction

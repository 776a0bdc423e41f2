import Relaxation.Device
import Relaxation.Matrix

/-!
The off-diagonal product on a device. With a halo it first meets the neighbor
ranks, so it is a program with collective calls.
-/

namespace Relaxation

abbrev Operation (α : Type) := ExceptT (Failure α) (StateT (Device α) (Collective α))

def Operation.call {α β : Type} (call : DeviceM α β) : Operation α β :=
  fun device => .done (call device)

namespace Matrix

variable {α : Type}

/-- Brings the ghost values of `input` up to date. What arrived before a fault
stays. -/
def refresh (matrix : Matrix α) (input : Buffer) : Operation α Unit := do
  match matrix.halo with
  | none => pure ()
  | some halo =>
    let (outcome, values) ← halo.sync ((← get).contents input) matrix.rows
    modify fun device => device.store input values
    Failure.ofFault outcome

variable [Arithmetic α]

def multiply (matrix : Matrix α) (input output : Buffer) : DeviceM α Unit := do
  Device.countDispatch
  let device ← get
  let (outcome, values) :=
    matrix.offDiagonalProduct (device.contents input) (device.contents output)
  set (device.store output values)
  Failure.ofFault outcome

def applyOffDiagonal (matrix : Matrix α) (input output : Buffer) : Operation α Unit := do
  Operation.call (Device.claim .operatorOutput output [input])
  let device ← get
  let x := device.contents input
  let y := device.contents output
  if x.size < matrix.columns * matrix.blockSize ∨ y.size < matrix.rows * matrix.blockSize then
    throw (.refused (.operatorTooShort x.size y.size matrix.rows matrix.columns))
  matrix.refresh input
  Operation.call (matrix.multiply input output)

end Matrix
end Relaxation

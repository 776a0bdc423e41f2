import Relaxation.Device

/-!
Two ways to bring the launches of a sweep to the device: one by one, or captured
at the first use and replayed ever after.
-/

namespace Relaxation

inductive LaunchMode where
  | direct
  | graph
  deriving DecidableEq, Repr

/-- A graph launcher is bound to the buffers of the first sweep it sees. -/
inductive Launcher where
  | direct
  | graph (captured : Option Graph)
  deriving DecidableEq, Repr

namespace Launcher

variable {α : Type}

def ofMode : LaunchMode → Launcher
  | .direct => .direct
  | .graph => .graph none

def captureOnce (captured : Option Graph) (sweep : Sweep) : DeviceM α Graph := do
  match captured with
  | some known => pure known
  | none =>
    modify fun device => device.report (.capturing Device.label)
    Device.capture sweep

/-- What a graph launcher keeps of its graph. A refused replay keeps it, a fault
drops it. -/
def keep {β : Type} (known : Graph) : Except (Failure α) β → Option Graph
  | .error (.faulted _) => none
  | _ => some known

variable [Arithmetic α]

/-- Launches for one iteration. The launcher changes even when they fail. -/
def issue (launcher : Launcher) (sweep : Sweep) :
    StateM (Device α) (Except (Failure α) Unit × Launcher) := do
  match launcher with
  | .direct =>
    let outcome ← (do Device.launchRelax sweep; Device.launchReduce sweep : DeviceM α Unit)
    pure (outcome, .direct)
  | .graph captured =>
    match ← (captureOnce captured sweep : DeviceM α Graph) with
    | .error failure => pure (.error failure, .graph none)
    | .ok known =>
      let outcome ← (Device.replay known : DeviceM α Unit)
      pure (outcome, .graph (keep known outcome))

end Launcher
end Relaxation

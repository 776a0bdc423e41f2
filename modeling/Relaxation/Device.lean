import Relaxation.Journal
import Relaxation.Launch

/-!
The device that holds buffers and runs launches. Buffers are handles, and two
handles can name the same storage, so every call that writes says which overlaps
it refuses. The device counts what it is asked to do, also when it then refuses.
-/

namespace Relaxation

structure Buffer where
  index : Nat
  deriving DecidableEq, Repr

structure BlockWidth where
  threads : Nat
  valid : Reduction.isPowerOfTwo threads = true ∧ 64 ≤ threads ∧ threads ≤ 1024

namespace BlockWidth

def standard : BlockWidth :=
  ⟨256, by decide⟩

def of {α : Type} (threads : Nat) : Except (Refusal α) BlockWidth :=
  if valid : Reduction.isPowerOfTwo threads = true ∧ 64 ≤ threads ∧ threads ≤ 1024 then
    .ok ⟨threads, valid⟩
  else
    .error (.threadsPerBlock threads)

end BlockWidth

structure Counters where
  dispatches : Nat := 0
  readbacks : Nat := 0
  captures : Nat := 0
  replays : Nat := 0
  deriving DecidableEq, Repr

structure Device (α : Type) where
  width : BlockWidth
  buffers : Array (Array α)
  counters : Counters
  /-- Reports so far, oldest first. -/
  journal : Array (Event α)

/-- A device call: it answers or fails, and the device changes either way. -/
abbrev DeviceM (α : Type) := ExceptT (Failure α) (StateM (Device α))

structure Sweep where
  kernel : Kernel
  rows : Nat
  geometry : Geometry
  diagonal : Buffer
  inverse : Buffer
  rhs : Buffer
  /-- Off-diagonal product on entry, new iterate on exit. -/
  iterate : Buffer
  /-- Previous iterate on entry, new iterate on exit. -/
  previous : Buffer
  /-- One partial sum per thread block. -/
  partials : Buffer
  /-- A single value, the sum of squared residuals. -/
  residual : Buffer
  deriving DecidableEq, Repr

inductive LaunchStep where
  | relax
  | reduce
  deriving DecidableEq, Repr

structure Graph where
  sweep : Sweep
  steps : List LaunchStep
  deriving DecidableEq, Repr

namespace Device

variable {α : Type}

def create (width : BlockWidth) : Device α where
  width := width
  buffers := #[]
  counters := {}
  journal := #[]

def label : String := "host"

def contents (device : Device α) (buffer : Buffer) : Array α :=
  device.buffers.getD buffer.index #[]

def Holds (device : Device α) (buffer : Buffer) : Prop :=
  buffer.index < device.buffers.size

def store (device : Device α) (buffer : Buffer) (values : Array α) : Device α :=
  { device with buffers := device.buffers.setIfInBounds buffer.index values }

def report (device : Device α) (event : Event α) : Device α :=
  { device with journal := device.journal.push event }

def count (device : Device α) (step : Counters → Counters) : Device α :=
  { device with counters := step device.counters }

def geometry (device : Device α) (rows : Nat) : Geometry :=
  .cover rows device.width.threads

def refuse {β : Type} (refusal : Refusal α) : DeviceM α β :=
  throw (.refused refusal)

def countDispatch : DeviceM α Unit :=
  modify fun device => device.count fun counters =>
    { counters with dispatches := counters.dispatches + 1 }

def countReadback : DeviceM α Unit :=
  modify fun device => device.count fun counters =>
    { counters with readbacks := counters.readbacks + 1 }

def adopt (values : Array α) : DeviceM α Buffer :=
  modifyGet fun device =>
    (⟨device.buffers.size⟩, { device with buffers := device.buffers.push values })

variable [Arithmetic α]

/-- Zeros. No buffer is empty: length zero gives one value. -/
def alloc (length : Nat) : DeviceM α Buffer :=
  adopt (Array.replicate (max length 1) 0)

def upload (values : Array α) : DeviceM α Buffer :=
  if values.isEmpty then alloc 0 else adopt values

def download (buffer : Buffer) (length : Nat) : DeviceM α (Array α) := do
  countReadback
  let held := (← get).contents buffer
  if held.size < length then refuse (.downloadRange length held.size)
  pure (held.extract 0 length)

/-- Copies the first `length` values. A buffer copied onto itself stays as it
is, whatever the length. -/
def copy (source target : Buffer) (length : Nat) : DeviceM α Unit := do
  if source = target then return
  let values := (← get).contents source
  let held := (← get).contents target
  if values.size < length ∨ held.size < length then refuse (.copyRange length)
  modify fun device =>
    device.store target (Storage.overwrite held 0 (values.extract 0 length).toList)

/-- The first value of a buffer. Waiting for it is the only readback of a sweep. -/
def readScalar (buffer : Buffer) : DeviceM α α := do
  countReadback
  pure (((← get).contents buffer)[0]?.getD 0)

/-- Refuses a written buffer that is among those already taken. -/
def claim (role : Role) (buffer : Buffer) (taken : List Buffer) : DeviceM α Unit :=
  if buffer ∈ taken then refuse (.aliased role) else pure ()

def longEnough (device : Device α) (sweep : Sweep) : Bool :=
  let b := sweep.kernel.blockSize
  let values := sweep.rows * b
  let inverse := match sweep.kernel with
    | .scalar => sweep.rows
    | _ => values * b
  values * b ≤ (device.contents sweep.diagonal).size &&
    inverse ≤ (device.contents sweep.inverse).size &&
    values ≤ (device.contents sweep.rhs).size &&
    values ≤ (device.contents sweep.iterate).size &&
    values ≤ (device.contents sweep.previous).size &&
    sweep.geometry.blocks ≤ (device.contents sweep.partials).size

def sources (device : Device α) (sweep : Sweep) : Sources α where
  diagonal := device.contents sweep.diagonal
  inverse := device.contents sweep.inverse
  rhs := device.contents sweep.rhs

def workspace (device : Device α) (sweep : Sweep) : Workspace α where
  iterate := device.contents sweep.iterate
  previous := device.contents sweep.previous
  partials := device.contents sweep.partials

def restore (device : Device α) (sweep : Sweep) (workspace : Workspace α) : Device α :=
  ((device.store sweep.iterate workspace.iterate).store sweep.previous
    workspace.previous).store sweep.partials workspace.partials

/-- The relaxation launch. The three written buffers may not overlap each other
or what is read, and nothing is written before the last check. -/
def runRelax (sweep : Sweep) : DeviceM α Unit := do
  let read := [sweep.diagonal, sweep.inverse, sweep.rhs]
  claim .iterate sweep.iterate read
  claim .previous sweep.previous (sweep.iterate :: read)
  claim .partials sweep.partials (sweep.previous :: sweep.iterate :: read)
  let device ← get
  unless device.longEnough sweep do refuse .launchTooShort
  let (outcome, workspace) :=
    (Launch.fusedRelax sweep.kernel sweep.geometry sweep.rows (device.sources sweep)).run
      (device.workspace sweep)
  set (device.restore sweep workspace)
  Failure.ofFault outcome

def runReduce (sweep : Sweep) : DeviceM α Unit := do
  claim .residual sweep.residual [sweep.partials]
  let device ← get
  let partials := device.contents sweep.partials
  let used := partials.extract 0 (min sweep.geometry.blocks partials.size)
  let total ← Failure.ofFault (Reduction.reducePartials used sweep.geometry.threadsPerBlock)
  let residual := device.contents sweep.residual
  if residual.isEmpty then throw (.faulted .outOfRange)
  set (device.store sweep.residual (residual.setIfInBounds 0 total))

def launchRelax (sweep : Sweep) : DeviceM α Unit := do
  countDispatch
  runRelax sweep

def launchReduce (sweep : Sweep) : DeviceM α Unit := do
  countDispatch
  runReduce sweep

def capture (sweep : Sweep) : DeviceM α Graph := do
  modify fun device => device.count fun counters =>
    { counters with captures := counters.captures + 1 }
  pure ⟨sweep, [.relax, .reduce]⟩

/-- Runs a captured graph. It counts as one replay and no dispatch. -/
def replay (graph : Graph) : DeviceM α Unit := do
  modify fun device => device.count fun counters =>
    { counters with replays := counters.replays + 1 }
  graph.steps.forM fun
    | .relax => runRelax graph.sweep
    | .reduce => runReduce graph.sweep

end Device
end Relaxation

import Relaxation.Decimal.Reading

/-!
The command line: which options there are, how they are written, and what an
argument list asks for. Arguments are read from left to right, and the first one
that ends the reading decides.
-/

namespace Relaxation

structure Options where
  nx : Nat := 64
  ny : Nat := 64
  blockSize : Nat := 1
  maxIterations : UInt32 := 10000
  precision : Float := 1.0e-5
  stallWindow : Option UInt32 := none
  cpu : Bool := false
  graph : Bool := false
  history : Bool := false
  statistics : Bool := false
  verbosity : Nat := 0

inductive Invocation where
  | run (options : Options)
  | version
  | help
  | invalid

namespace Options

inductive ValueOption where
  | nx
  | ny
  | blockSize
  | maxIterations
  | precision
  | stallWindow
  deriving DecidableEq, Repr

inductive Flag where
  | cpu
  | graph
  | history
  | statistics
  deriving DecidableEq, Repr

inductive Switch where
  | value (option : ValueOption)
  | flag (flag : Flag)
  | verbose
  | version
  | help
  deriving DecidableEq, Repr

def longSwitch : String → Option Switch
  | "nx" => some (.value .nx)
  | "ny" => some (.value .ny)
  | "block-size" => some (.value .blockSize)
  | "max-iter" => some (.value .maxIterations)
  | "precision" => some (.value .precision)
  | "stall-window" => some (.value .stallWindow)
  | "cpu" => some (.flag .cpu)
  | "graph" => some (.flag .graph)
  | "history" => some (.flag .history)
  | "stats" => some (.flag .statistics)
  | "verbose" => some .verbose
  | "version" => some .version
  | "help" => some .help
  | _ => none

def shortSwitch : Char → Option Switch
  | 'b' => some (.value .blockSize)
  | 'v' => some .verbose
  | 'V' => some .version
  | 'h' => some .help
  | _ => none

def readDigits (text : List Char) : Option Nat :=
  if text.isEmpty || !text.all Char.isDigit then none
  else some (Decimal.digitsValue text)

def readSize (text : String) : Option Nat := do
  let digits :=
    match text.toList with
    | '+' :: rest => rest
    | rest => rest
  let size ← readDigits digits
  if size < UInt64.size then some size else none

/-- A count of 32 bits. It is read as a signed number, so zero may have a minus
sign. -/
def readCount (text : String) : Option UInt32 := do
  let (negative, digits) := Decimal.takeSign text.toList
  let count ← readDigits digits
  if UInt32.size ≤ count || (negative && count != 0) then none else some (.ofNat count)

def setValue (options : Options) (option : ValueOption) (text : String) : Option Options :=
  match option with
  | .nx => (readSize text).map fun size => { options with nx := size }
  | .ny => (readSize text).map fun size => { options with ny := size }
  | .blockSize => (readSize text).map fun size => { options with blockSize := size }
  | .maxIterations => (readCount text).map fun count => { options with maxIterations := count }
  | .precision => (Decimal.read text).map fun value => { options with precision := value }
  | .stallWindow =>
    (readCount text).map fun count => { options with stallWindow := some count }

def setFlag (options : Options) : Flag → Options
  | .cpu => { options with cpu := true }
  | .graph => { options with graph := true }
  | .history => { options with history := true }
  | .statistics => { options with statistics := true }

inductive Expecting where
  | argument
  | valueOf (option : ValueOption)
  /-- Nothing may follow the mark that ends the options. -/
  | nothing
  deriving DecidableEq, Repr

structure Reading where
  options : Options := {}
  seen : List Switch := []
  expecting : Expecting := .argument

abbrev Step := Except Invocation Reading

namespace Reading

def acceptValue (reading : Reading) (option : ValueOption) (text : String) : Step :=
  if .value option ∈ reading.seen then .error .invalid
  else
    match reading.options.setValue option text with
    | some options =>
      .ok { options, seen := .value option :: reading.seen, expecting := .argument }
    | none => .error .invalid

def acceptFlag (reading : Reading) (flag : Flag) : Step :=
  if .flag flag ∈ reading.seen then .error .invalid
  else
    .ok { reading with
      options := reading.options.setFlag flag
      seen := .flag flag :: reading.seen }

/-- Verbosity stays within a byte. -/
def acceptVerbose (reading : Reading) : Reading :=
  { reading with options :=
    { reading.options with verbosity := min 255 (reading.options.verbosity + 1) } }

def acceptPlain (reading : Reading) : Switch → Step
  | .flag flag => reading.acceptFlag flag
  | .verbose => .ok reading.acceptVerbose
  | .version => .error .version
  | .help => .error .help
  | .value _ => .error .invalid

def acceptOption (reading : Reading) (option : ValueOption) : Option String → Step
  | some text => reading.acceptValue option text
  | none => .ok { reading with expecting := .valueOf option }

def readLong (reading : Reading) (name : String) (attached : Option String) : Step :=
  match longSwitch name, attached with
  | some (.value option), attached => reading.acceptOption option attached
  | some switch, none => reading.acceptPlain switch
  | _, _ => .error .invalid

def attachedValue : List Char → Option String
  | [] => none
  | '=' :: text => some (String.ofList text)
  | text => some (String.ofList text)

/-- Letters behind one dash. What follows an option with a value is its value. -/
def readShort (reading : Reading) : List Char → Step
  | [] => .ok reading
  | letter :: letters =>
    match shortSwitch letter with
    | some (.value option) => reading.acceptOption option (attachedValue letters)
    | some switch =>
      match reading.acceptPlain switch with
      | .ok reading => reading.readShort letters
      | stopped => stopped
    | none => .error .invalid

def splitValue (text : List Char) : String × Option String :=
  match text.span (· != '=') with
  | (name, []) => (String.ofList name, none)
  | (name, _ :: value) => (String.ofList name, some (String.ofList value))

/-- An argument where an option may stand. There are no others. -/
def readArgument (reading : Reading) (argument : String) : Step :=
  match argument.toList with
  | ['-', '-'] => .ok { reading with expecting := .nothing }
  | '-' :: '-' :: text =>
    let (name, attached) := splitValue text
    reading.readLong name attached
  | '-' :: letter :: letters => reading.readShort (letter :: letters)
  | _ => .error .invalid

/-- The next argument. A value that stands alone does not start with a dash. -/
def next (reading : Reading) (argument : String) : Step :=
  match reading.expecting with
  | .argument => reading.readArgument argument
  | .valueOf option =>
    if argument.startsWith "-" then .error .invalid else reading.acceptValue option argument
  | .nothing => .error .invalid

def finish (reading : Reading) : Invocation :=
  match reading.expecting with
  | .valueOf _ => .invalid
  | _ => .run reading.options

end Reading

def parse (arguments : List String) : Invocation :=
  match arguments.foldlM Reading.next {} with
  | .ok reading => reading.finish
  | .error invocation => invocation

def versionText : String := "relaxor 0.1.0\n"

def usageText : String := "Usage: relaxor [OPTIONS]\n"

def helpText : String :=
  "Jacobi relaxation of a 2-D diffusion model problem\n\n" ++ usageText ++ "\nOptions:\n" ++
  "      --nx <NX>                      Grid cells in x [default: 64]\n" ++
  "      --ny <NY>                      Grid cells in y [default: 64]\n" ++
  "  -b, --block-size <BLOCK_SIZE>      " ++
    "Unknowns per cell (diagonal block size, at most 9) [default: 1]\n" ++
  "      --max-iter <MAX_ITER>          Maximum number of sweeps [default: 10000]\n" ++
  "      --precision <PRECISION>        Relative residual tolerance [default: 0.00001]\n" ++
  "      --stall-window <STALL_WINDOW>  " ++
    "Stop after this many sweeps without a new minimum residual\n" ++
  "      --cpu                          Use the host device instead of the GPU\n" ++
  "      --graph                        Capture the sweep once and replay it\n" ++
  "      --history                      " ++
    "Write the residual history instead of the solution\n" ++
  "      --stats                        Print performance stats to stderr\n" ++
  "  -v, --verbose...                   " ++
    "Per-solve summary (-v) or per-sweep residuals (-vv)\n" ++
  "  -h, --help                         Print help\n" ++
  "  -V, --version                      Print version\n"

end Options
end Relaxation

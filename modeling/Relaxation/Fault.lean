/-!
How a call can fail. A *refusal* is an answer: the call named the precondition
it found broken and changed nothing it promised to keep. A *fault* is a broken
access inside a call that was let through; it ends the call where it happens.
-/

namespace Relaxation

inductive Fault where
  | outOfRange
  | lengthMismatch
  | divisionByZero
  | emptyChunk
  /-- A reduction width that is no power of two, or too narrow for the tail. -/
  | reductionWidth
  | productDimension
  | messageMissing (rank sender : Nat)
  | overflow
  deriving DecidableEq, Repr

/-- The two faults with a wording of their own. -/
def Fault.text? : Fault → Option String
  | .productDimension => some "spmv dimension mismatch"
  | .messageMissing rank sender =>
    some s!"rank {rank} expected halo data from rank {sender} but none was sent"
  | _ => none

def Fault.mapUntil {β γ : Type} (call : β → Except Fault γ) :
    List β → List γ × Except Fault Unit
  | [] => ([], .ok ())
  | item :: rest =>
    match call item with
    | .error fault => ([], .error fault)
    | .ok result =>
      let (results, outcome) := mapUntil call rest
      (result :: results, outcome)

inductive Role where
  | iterate
  | previous
  | partials
  | residual
  | rhs
  | operatorOutput
  deriving DecidableEq, Repr

def Role.text : Role → String
  | .iterate => "vx"
  | .previous => "rk"
  | .partials => "partials"
  | .residual => "residual"
  | .rhs => "rhs"
  | .operatorOutput => "operator output"

inductive Refusal (α : Type) where
  | blockSizeRange (blockSize limit : Nat)
  | raggedDiagonal (length blockLength : Nat)
  | unusableDiagonal (row : Nat)
  | singularBlock (row : Nat) (pivot : α)
  | emptyBlocks
  | missingColumns (columns rows : Nat)
  | diagonalLength (found expected rows blockSize : Nat)
  | misplacedEntry (row column rows columns : Nat)
  | haloTooWide (received available : Nat)
  | haloForeignRow
  | emptyGrid (columns rows blockSize : Nat)
  | emptyRank (rank rows ranks : Nat)
  | threadsPerBlock (threads : Nat)
  | aliased (role : Role)
  | launchTooShort
  | downloadRange (wanted held : Nat)
  | copyRange (count : Nat)
  | operatorTooShort (input output rows columns : Nat)
  | inverseShape (inverseRows inverseBlock rows blockSize : Nat)
  | diagonalShape (found rows blockSize : Nat)
  | columnShape
  | matrixShape (rows blockSize expectedRows expectedBlock : Nat)
  | vectorTooShort (role : Role) (held required : Nat)
  | sameVector
  | auxiliaryAliased
  | noAdapter
  | storage (reason : String)
  deriving DecidableEq, Repr

inductive RefusalKind where
  | precondition
  | device
  | storage
  deriving DecidableEq, Repr

namespace Refusal

variable {α : Type}

def kind : Refusal α → RefusalKind
  | .noAdapter => .device
  | .storage _ => .storage
  | _ => .precondition

/-- The cause in words. `value` writes the one number a message can hold. -/
def cause (value : α → String) : Refusal α → String
  | .blockSizeRange blockSize limit =>
    s!"diagonal block size {blockSize} outside supported range 1..={limit}"
  | .raggedDiagonal length blockLength =>
    s!"diagonal length {length} is not a multiple of {blockLength}"
  | .unusableDiagonal row => s!"zero or non-finite diagonal at row {row}"
  | .singularBlock row pivot =>
    "singular diagonal block at row " ++ toString row ++ " (pivot " ++ value pivot ++ ")"
  | .emptyBlocks => "block size must be at least 1"
  | .missingColumns columns rows =>
    s!"extended column count {columns} is smaller than row count {rows}"
  | .diagonalLength found expected rows blockSize =>
    s!"diagonal has {found} values, expected {expected} for {rows} rows of {blockSize}x{blockSize} blocks"
  | .misplacedEntry row column rows columns =>
    s!"invalid extra-diagonal entry ({row}, {column}) in {rows}x{columns} matrix"
  | .haloTooWide received available =>
    s!"halo receives {received} ghost rows but the matrix has {available}"
  | .haloForeignRow => "halo sends a row the matrix does not own"
  | .emptyGrid columns rows blockSize =>
    s!"empty model grid {columns}x{rows} with block size {blockSize}"
  | .emptyRank rank rows ranks =>
    s!"rank {rank} owns no rows of a {rows}-row chain over {ranks} ranks"
  | .threadsPerBlock threads =>
    s!"threads per block must be a power of two in 64..=1024, got {threads}"
  | .aliased role => role.text ++ " buffer is aliased"
  | .launchTooShort => "relaxation buffers smaller than the launch"
  | .downloadRange wanted held => s!"download of {wanted} values from a buffer of {held}"
  | .copyRange count => s!"copy of {count} values out of range"
  | .operatorTooShort input output rows columns =>
    s!"operator buffers ({input}, {output}) too short for {rows} x {columns} block rows"
  | .inverseShape inverseRows inverseBlock rows blockSize =>
    s!"inverse diagonal is {inverseRows} rows of block size {inverseBlock}, " ++
      s!"matrix is {rows} rows of block size {blockSize}"
  | .diagonalShape found rows blockSize =>
    s!"matrix diagonal has {found} values for {rows} rows of block size {blockSize}"
  | .columnShape => "matrix has fewer extended columns than rows"
  | .matrixShape rows blockSize expectedRows expectedBlock =>
    s!"matrix has {rows} rows of block size {blockSize}, " ++
      s!"solver expects {expectedRows} rows of block size {expectedBlock}"
  | .vectorTooShort role held required =>
    role.text ++ s!" holds {held} values, {required} required"
  | .sameVector => "vx and rhs are the same buffer"
  | .auxiliaryAliased => "auxiliary buffer aliases vx or rhs"
  | .noAdapter => "no GPU adapter found"
  | .storage reason => reason

def message (value : α → String) (refusal : Refusal α) : String :=
  let heading :=
    match refusal.kind with
    | .precondition => "Precondition violated: "
    | .device => "Device error: "
    | .storage => "IO error: "
  heading ++ refusal.cause value

end Refusal

inductive Failure (α : Type) where
  | refused (refusal : Refusal α)
  | faulted (fault : Fault)
  deriving DecidableEq, Repr

namespace Failure

variable {α β : Type} {m : Type → Type} [Pure m] [MonadExcept (Failure α) m]

def ofRefusal : Except (Refusal α) β → m β
  | .ok result => pure result
  | .error refusal => throw (.refused refusal)

def ofFault : Except Fault β → m β
  | .ok result => pure result
  | .error fault => throw (.faulted fault)

end Failure
end Relaxation

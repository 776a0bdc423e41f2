import Relaxation.Matrix
import Relaxation.Word

/-!
Assembly of a matrix from its diagonal and a list of entries off the diagonal,
in any order. Entries at one place are added in the order in which they came.
-/

namespace Relaxation

structure Entry (α : Type) where
  row : Nat
  column : Nat
  value : α
  deriving DecidableEq, Repr

namespace Entry

variable {α : Type}

def notAfter (a b : Entry α) : Bool :=
  a.row < b.row || (a.row == b.row && a.column ≤ b.column)

def samePlace (a b : Entry α) : Bool :=
  a.row == b.row && a.column == b.column

def misplaced (rows columns : Nat) (entry : Entry α) : Bool :=
  rows ≤ entry.row || columns ≤ entry.column || entry.row == entry.column

variable [Arithmetic α]

/-- Adds up neighbors in the list that stand for one place; `current` is the sum
so far. -/
def mergeFrom (current : Entry α) : List (Entry α) → List (Entry α)
  | [] => [current]
  | next :: rest =>
    if current.samePlace next then
      mergeFrom { current with value := current.value + next.value } rest
    else current :: mergeFrom next rest

def merge : List (Entry α) → List (Entry α)
  | [] => []
  | first :: rest => mergeFrom first rest

end Entry

def runningTotals (start : Nat) : List Nat → List Nat
  | [] => [start]
  | count :: rest => start :: runningTotals (start + count) rest

namespace Matrix

variable {α : Type} [Arithmetic α]

def rowCounts (rows : Nat) (entries : List (Entry α)) : Array Nat :=
  entries.foldl (fun counts entry => counts.modify entry.row (· + 1)) (Array.replicate rows 0)

def ofEntries (rows columns blockSize : Nat) (diagonal : Array α) (entries : List (Entry α)) :
    Matrix α :=
  let merged := Entry.merge (entries.mergeSort Entry.notAfter)
  { rows, columns, blockSize, diagonal
    values := (merged.map Entry.value).toArray
    columnIndices := (merged.map Entry.column).toArray
    rowPointers := (runningTotals 0 (rowCounts rows merged).toList).toArray
    halo := none }

/-- A length that is asked for must be a word; the length of a diagonal that has it is one. -/
def assemble (rows columns blockSize : Nat) (diagonal : Array α) (entries : List (Entry α)) :
    Except (Failure α) (Matrix α) :=
  if blockSize = 0 then
    .error (.refused .emptyBlocks)
  else if columns < rows then
    .error (.refused (.missingColumns columns rows))
  else if diagonal.size ≠ rows * blockSize * blockSize then
    if Word.limit ≤ rows * blockSize * blockSize then
      .error (.faulted .overflow)
    else
      .error (.refused
        (.diagonalLength diagonal.size (rows * blockSize * blockSize) rows blockSize))
  else
    match entries.find? (Entry.misplaced rows columns) with
    | some entry => .error (.refused (.misplacedEntry entry.row entry.column rows columns))
    | none => .ok (ofEntries rows columns blockSize diagonal entries)

end Matrix
end Relaxation

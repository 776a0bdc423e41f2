import Relaxation.Fault

/-!
Sizes and positions are machine words: a sum or product that no word can hold ends the call in
which it is formed. What is already stored needs no such check, for its length is a word.
-/

namespace Relaxation.Word

def limit : Nat := UInt64.size

/-- A value that is right as long as no word overflows. -/
def within {β : Type} (fits : Prop) [Decidable fits] (value : β) : Except Fault β :=
  if fits then .ok value else .error .overflow

def add (a b : Nat) : Except Fault Nat :=
  within (a + b < limit) (a + b)

def mul (a b : Nat) : Except Fault Nat :=
  within (a * b < limit) (a * b)

end Relaxation.Word

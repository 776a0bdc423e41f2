/-!
The exact value held by a double, as a sign, a whole significand and a power of
two. Every decimal text of the program is computed from this form.
-/

namespace Relaxation.Decimal

/-- What the bits of a double stand for. A finite value is
`significand * 2 ^ exponent`, negated when `negative` holds. -/
inductive Binary where
  | notANumber
  | infinite (negative : Bool)
  | finite (negative : Bool) (significand : Nat) (exponent : Int)
  deriving DecidableEq, Repr

namespace Binary

def leastExponent : Int := -1074

def hiddenBit : Nat := Nat.pow 2 52

def ofBits (bits : Nat) : Binary :=
  let negative : Bool := bits / Nat.pow 2 63 % 2 = 1
  let field : Nat := bits / hiddenBit % Nat.pow 2 11
  let fraction : Nat := bits % hiddenBit
  if field = 2047 then
    if fraction = 0 then .infinite negative else .notANumber
  else if field = 0 then
    .finite negative fraction leastExponent
  else
    .finite negative (fraction + hiddenBit) ((field : Int) - 1075)

def ofFloat (value : Float) : Binary :=
  ofBits value.toBits.toNat

end Binary

def ratio (significand : Nat) (exponent : Int) : Nat × Nat :=
  (significand * Nat.pow 2 exponent.toNat, Nat.pow 2 (-exponent).toNat)

end Relaxation.Decimal

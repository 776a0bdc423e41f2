/-!
Reading a double from text: an optional sign, then `inf`, `infinity` or `nan`
in any case, or digits with an optional point and an optional exponent. At least
one digit stands beside the point, and the whole text has to be used.
-/

namespace Relaxation.Decimal

def digitsValue (digits : List Char) : Nat :=
  digits.foldl (fun value digit => value * 10 + (digit.toNat - '0'.toNat)) 0

def takeDigits (text : List Char) : List Char × List Char :=
  (text.takeWhile Char.isDigit, text.dropWhile Char.isDigit)

def takeSign : List Char → Bool × List Char
  | '-' :: rest => (true, rest)
  | '+' :: rest => (false, rest)
  | rest => (false, rest)

def readExponent : List Char → Option Int
  | [] => some 0
  | mark :: rest =>
    if mark = 'e' ∨ mark = 'E' then
      let (negative, rest) := takeSign rest
      let (digits, rest) := takeDigits rest
      if digits.isEmpty ∨ ¬rest.isEmpty then none
      else some (if negative then -(digitsValue digits) else digitsValue digits)
    else none

/-- `mantissa * 10 ^ exponent`, rounded once. Beyond the range of doubles the
exponent is not raised to a power at all. -/
def scale (mantissa : Nat) (digitCount : Nat) (exponent : Int) : Float :=
  if mantissa = 0 ∨ exponent + digitCount < -400 then 0.0
  else if 400 < exponent then 1.0 / 0.0
  else if 0 ≤ exponent then Float.ofScientific mantissa false exponent.toNat
  else Float.ofScientific mantissa true (-exponent).toNat

def readUnsigned (text : List Char) : Option Float := do
  let (whole, rest) := takeDigits text
  let (fraction, rest) :=
    match rest with
    | '.' :: rest => takeDigits rest
    | rest => ([], rest)
  if whole.isEmpty && fraction.isEmpty then none
  let exponent ← readExponent rest
  let digits := whole ++ fraction
  pure (scale (digitsValue digits) digits.length (exponent - fraction.length))

def read (text : String) : Option Float := do
  let (negative, rest) := takeSign text.toList
  let word := (String.ofList rest).toLower
  let value ←
    if word = "inf" ∨ word = "infinity" then some (1.0 / 0.0)
    else if word = "nan" then some (0.0 / 0.0)
    else readUnsigned rest
  pure (if negative then -value else value)

end Relaxation.Decimal

import Relaxation.Decimal.Shortest

/-!
The three written forms of a double: plain (shortest digits, never an
exponent), fixed places, and scientific with three decimals.
-/

namespace Relaxation.Decimal

def special (negative : Bool) : String :=
  if negative then "-inf" else "inf"

def signed (negative : Bool) (text : String) : String :=
  if negative then "-" ++ text else text

def zeros (count : Nat) : String :=
  String.ofList (List.replicate count '0')

def padZeros (width : Nat) (text : String) : String :=
  zeros (width - text.length) ++ text

def padLeft (width : Nat) (text : String) : String :=
  String.ofList (List.replicate (width - text.length) ' ') ++ text

def withPoint (whole places : Nat) : String :=
  if places = 0 then toString whole
  else
    toString (whole / Nat.pow 10 places) ++ "." ++
      padZeros places (toString (whole % Nat.pow 10 places))

/-- Positional text of a decimal number: no exponent, no trailing zeros after a
point and no point for a whole number. -/
def Digits.positional (number : Digits) : String :=
  if 0 ≤ number.exponent then toString number.digits ++ zeros number.exponent.toNat
  else withPoint number.digits (-number.exponent).toNat

/-- Shortest text that reads back to the value. -/
def plain (value : Float) : String :=
  match Binary.ofFloat value with
  | .notANumber => "NaN"
  | .infinite negative => special negative
  | .finite negative significand exponent =>
    signed negative <|
      if significand = 0 then "0" else (shortest significand exponent).positional

/-- The exact binary value rounded to a number of decimals, ties to even. -/
def fixed (places : Nat) (value : Float) : String :=
  match Binary.ofFloat value with
  | .notANumber => "NaN"
  | .infinite negative => special negative
  | .finite negative significand exponent =>
    let (numerator, denominator) := ratio significand exponent
    signed negative (withPoint (roundToExponent numerator denominator (-places)) places)

/-- One digit, a point, `places` decimals and the exponent. Rounding may carry
into a new leading digit. -/
def scientific (places : Nat) (value : Float) : String :=
  match Binary.ofFloat value with
  | .notANumber => "NaN"
  | .infinite negative => special negative
  | .finite negative significand exponent =>
    signed negative <|
      if significand = 0 then withPoint 0 places ++ "e0"
      else
        let (numerator, denominator) := ratio significand exponent
        let leading := leadingExponent numerator denominator
        let digits := roundToExponent numerator denominator (leading - places)
        if digits < Nat.pow 10 (places + 1) then withPoint digits places ++ "e" ++ toString leading
        else withPoint (digits / 10) places ++ "e" ++ toString (leading + 1)

end Relaxation.Decimal

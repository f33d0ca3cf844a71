import Reckoner.Numeral.Digits

/-! Floats in positional notation with a fixed number of places. The exact binary value is rounded
once, and a half goes to the even neighbour; there is never an exponent. -/
namespace Reckoner.Numeral

def roundHalfEven (num den : Nat) : Nat :=
  let quotient := num / den
  match compare (2 * (num % den)) den with
  | .lt => quotient
  | .eq => quotient + quotient % 2
  | .gt => quotient + 1

/-- The significand times a power of two, the exponent of which is counted from -1075. -/
structure Magnitude where
  significand : Nat
  exponent : Nat
  deriving DecidableEq, Repr

/-- The size of the float with the given bits, the sign apart; infinities and NaN have none. A float
with exponent field 0 is a fraction of the least normal one. -/
def Magnitude.ofBits? (bits : Nat) : Option Magnitude :=
  let exponent := (bits >>> 52) % 2048
  let fraction := bits % (1 <<< 52)
  if exponent = 2047 then none
  else if exponent = 0 then some ⟨fraction, 1⟩
  else some ⟨(1 <<< 52) + fraction, exponent⟩

def Magnitude.units (unit : Nat) (size : Magnitude) : Nat :=
  roundHalfEven ((size.significand <<< size.exponent) * unit) (1 <<< 1075)

def pointedText (places units : Nat) : String :=
  let unit := Nat.pow 10 places
  natText (units / unit) ++ "." ++ String.ofList (paddedDigits places (units % unit))

/-- The float with the given number of places. The sign of zero is shown. -/
def fixedText (places : Nat) (x : Float) : String :=
  let bits := x.toBits.toNat
  let sign := if bits >>> 63 = 1 then "-" else ""
  match Magnitude.ofBits? bits with
  | some size => sign ++ pointedText places (size.units (Nat.pow 10 places))
  | none => if x.isNaN then "NaN" else sign ++ "inf"

end Reckoner.Numeral

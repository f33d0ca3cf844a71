import Reckoner.Error
import Reckoner.Numeral.Digits
import Reckoner.Word

/-! Fractions with 64-bit parts. Every function that makes one keeps it in lowest terms with a
positive denominator. -/
namespace Reckoner

structure Fraction where
  numerator : Int64
  denominator : Int64
  deriving DecidableEq, Repr

namespace Fraction

/-- Lowest terms and a positive denominator; zero is `0 / 1`. -/
def WellFormed (f : Fraction) : Prop :=
  0 < f.denominator.toInt ∧ Int.gcd f.numerator.toInt f.denominator.toInt = 1

instance (f : Fraction) : Decidable f.WellFormed := inferInstanceAs (Decidable (_ ∧ _))

/-- The parts of `n / d` divided by their greatest common divisor, the sign moved to the first. -/
def lowestTerms (n d : Int) : Int × Int :=
  let divisor : Int := Int.gcd n d
  (d.sign * n.tdiv divisor, d.sign * d.tdiv divisor)

def ofInt64 (n : Int64) : Fraction := ⟨n, 1⟩

def ofParts? (parts : Int × Int) : Option Fraction := do
  return ⟨← Word.ofInt? parts.1, ← Word.ofInt? parts.2⟩

def text (f : Fraction) : String :=
  Numeral.intText f.numerator.toInt ++ " / " ++ Numeral.intText f.denominator.toInt

def ofRatio (n d : Int64) : Except Error Fraction :=
  if d = 0 then .error .divisionByZero
  else match ofParts? (lowestTerms n.toInt d.toInt) with
    | some f => .ok f
    | none => .error (.overflow (Numeral.intText n.toInt ++ " / " ++ Numeral.intText d.toInt ++
        " does not fit a 64-bit fraction"))

def isZero (f : Fraction) : Bool := f.numerator = 0

def isWhole (f : Fraction) : Bool := f.denominator = 1

def inverse (f : Fraction) : Except Error Fraction :=
  if f.isZero then .error .divisionByZero
  else if f.numerator = Int64.minValue then
    .error (.overflow ("the inverse of " ++ f.text ++ " does not fit a 64-bit fraction"))
  else if 0 < f.numerator then .ok ⟨f.denominator, f.numerator⟩
  else .ok ⟨-f.denominator, -f.numerator⟩

/-- The whole part, toward zero. -/
def truncate (f : Fraction) : Int64 := f.numerator / f.denominator

def truncate? (f : Fraction) : Option Nat :=
  if f.truncate < 0 then none else some f.truncate.toInt.toNat

/-- The quotient of the parts, each rounded to a float first. -/
def toFloat (f : Fraction) : Float :=
  Float.ofInt f.numerator.toInt / Float.ofInt f.denominator.toInt

end Fraction
end Reckoner

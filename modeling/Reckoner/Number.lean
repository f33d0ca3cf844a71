import Reckoner.Fraction
import Reckoner.Numeral.Fixed

/-! Numbers: exact while a 64-bit integer or fraction can hold them, a float otherwise. -/
namespace Reckoner

inductive Number where
  | integer (value : Int64)
  | float (value : Float)
  | fraction (value : Fraction)
  deriving DecidableEq, Repr

instance : Inhabited Number := ⟨.integer 0⟩

namespace Number

/-- A whole fraction becomes an integer. -/
def ofFraction (f : Fraction) : Number :=
  if f.isWhole then integer f.numerator else fraction f

def isZero : Number → Bool
  | integer n => n = 0
  | float x => x == 0.0
  | fraction f => f.isZero

/-- The nearest float to an integer, the half-way case to the even one. -/
def floatOfInt64 (n : Int64) : Float := Float.ofInt n.toInt

def toFloat : Number → Float
  | integer n => floatOfInt64 n
  | float x => x
  | fraction f => f.toFloat

def toFraction? : Number → Option Fraction
  | integer n => some (.ofInt64 n)
  | float _ => none
  | fraction f => some f

def text : Number → String
  | integer n => Numeral.intText n.toInt
  | float x => Numeral.fixedText 6 x
  | fraction f => f.text

end Number
end Reckoner

import Reckoner.Fraction.Arithmetic
import Reckoner.Number
import Reckoner.Operator

/-! Arithmetic of numbers. Each operation is exact where its operands are exact and the result can
be held; otherwise both operands are rounded to floats first. -/
namespace Reckoner.Number

def viaFractions? (op : Fraction → Fraction → Option Fraction) (a b : Number) : Option Number := do
  return ofFraction (← op (← a.toFraction?) (← b.toFraction?))

/-- Two integers are not taken through fractions. -/
def exactWhole? (whole : Int → Int → Int) (op : Fraction → Fraction → Option Fraction) :
    Number → Number → Option Number
  | integer a, integer b => (Word.ofInt? (whole a.toInt b.toInt)).map integer
  | a, b => viaFractions? op a b

def add (a b : Number) : Number :=
  (exactWhole? (· + ·) Fraction.add? a b).getD (float (a.toFloat + b.toFloat))

def sub (a b : Number) : Number :=
  (exactWhole? (· - ·) Fraction.sub? a b).getD (float (a.toFloat - b.toFloat))

def mul (a b : Number) : Number :=
  (exactWhole? (· * ·) Fraction.mul? a b).getD (float (a.toFloat * b.toFloat))

/-- Two integers divide to a fraction, or to an integer where the quotient is whole. -/
def div (a b : Number) : Except Error Number :=
  if b.isZero then .error .divisionByZero
  else .ok ((viaFractions? Fraction.div? a b).getD (float (a.toFloat / b.toFloat)))

/-- Anything to the power of zero is 1, and so is an integer to a negative integer. Fractions are
not kept exact. -/
def pow (a b : Number) : Number :=
  if b.isZero then integer 1
  else match a, b with
    | integer base, integer exponent =>
      if exponent < 0 then integer 1
      else
        match (Word.power? base.toInt exponent.toInt.toNat).bind Word.ofInt? with
        | some power => integer power
        | none => float (floatOfInt64 base ^ floatOfInt64 exponent)
    | a, b => float (a.toFloat ^ b.toFloat)

end Reckoner.Number

namespace Reckoner

/-- The result in wrapping arithmetic, without an account of unchecked integers. -/
def Operator.apply : Operator → Number → Number → Except Error Number
  | add, a, b => .ok (a.add b)
  | subtract, a, b => .ok (a.sub b)
  | multiply, a, b => .ok (a.mul b)
  | divide, a, b => a.div b
  | power, a, b => .ok (a.pow b)

end Reckoner

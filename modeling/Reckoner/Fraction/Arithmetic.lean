import Reckoner.Fraction
import Reckoner.Word.Worked

/-! Arithmetic of fractions on words. Products, sums and the sign flip of a quotient are checked and
end the computation where they do not fit; greatest common divisors, exact quotients and the final
reduction are formed unchecked. The account of them is not taken further: `add?` and its kin answer
the result alone, which is that of wrapping arithmetic. Where a divisor does not fit, in a quotient
of zero by a fraction whose numerator is the least word, the result is zero. -/
namespace Reckoner.Fraction

open Word

def ofParts (parts : Int × Int) : Fraction :=
  ⟨Int64.ofInt parts.1, Int64.ofInt parts.2⟩

def divisor (a b : Int) : Worked Int := .surely (Int.gcd a b)

/-- A quotient that leaves no remainder, unchecked. -/
def part (a b : Int) : Worked Int := .surely (a.tdiv b)

/-- Divides both parts by their greatest common divisor and makes the denominator positive. -/
def reduce (n d : Int) : Worked Fraction := do
  if n = 0 then return ofParts (0, 1)
  if n = d then return ofParts (1, 1)
  let g ← divisor n d
  let n ← part n g
  let d ← part d g
  if d < 0 then return ofParts (← .surely (-n), ← .surely (-d))
  return ofParts (n, d)

def combine (op : Int → Int → Int) (f g : Fraction) : Worked Fraction := do
  let a := f.numerator.toInt
  let b := f.denominator.toInt
  let c := g.numerator.toInt
  let d := g.denominator.toInt
  let common ← Worked.exactly ((← part b (← divisor b d)) * d)
  let left ← Worked.exactly ((← part common b) * a)
  let right ← Worked.exactly ((← part common d) * c)
  reduce (← Worked.exactly (op left right)) common

def sum (f g : Fraction) : Worked Fraction := combine (· + ·) f g

def difference (f g : Fraction) : Worked Fraction := combine (· - ·) f g

/-- Cancels across before multiplying. -/
def product (f g : Fraction) : Worked Fraction := do
  let a := f.numerator.toInt
  let b := f.denominator.toInt
  let c := g.numerator.toInt
  let d := g.denominator.toInt
  let ad ← divisor a d
  let bc ← divisor b c
  let n ← Worked.exactly ((← part a ad) * (← part c bc))
  let m ← Worked.exactly ((← part b bc) * (← part d ad))
  reduce n m

/-- The parts of the quotient before they are reduced; equal denominators or numerators leave
nothing to multiply. -/
def quotientParts (f g : Fraction) : Worked (Int × Int) := do
  let a := f.numerator.toInt
  let b := f.denominator.toInt
  let c := g.numerator.toInt
  let d := g.denominator.toInt
  if b = d then return (a, c)
  if a = c then return (d, b)
  let ac ← divisor a c
  let bd ← divisor b d
  let n ← Worked.exactly ((← part a ac) * (← part d bd))
  let m ← Worked.exactly ((← part b bd) * (← part c ac))
  return (n, m)

/-- The quotient; there is none by zero, nor when making the denominator positive does not fit. -/
def quotient (f g : Fraction) : Worked Fraction := do
  if g.isZero then Worked.giveUp
  else
    let (n, m) ← quotientParts f g
    if n = 0 then return ofParts (0, 1)
    if n = m then return ofParts (1, 1)
    let k ← divisor n m
    let n ← part n k
    let m ← part m k
    if m < 0 then return ofParts (← .exactly (-n), ← .exactly (-m))
    return ofParts (n, m)

def add? (f g : Fraction) : Option Fraction := (sum f g).result

def sub? (f g : Fraction) : Option Fraction := (difference f g).result

def mul? (f g : Fraction) : Option Fraction := (product f g).result

def div? (f g : Fraction) : Option Fraction := (quotient f g).result

def neg? (f : Fraction) : Option Fraction := (ofInt64 0).sub? f

end Reckoner.Fraction

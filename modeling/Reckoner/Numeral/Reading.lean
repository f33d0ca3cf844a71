import Reckoner.Number
import Reckoner.Token

/-! The number that a numeral stands for. Integers are exact as far as they fit in 64 bits, with the
sign taken into account; everything else is rounded to the nearest float once. -/
namespace Reckoner.Numeral

/-- `m / 10 ^ places` with a sign, rounded to the nearest float. -/
def nearestFloat (negative : Bool) (m places : Nat) : Float :=
  let size := Float.ofScientific m true places
  if negative then -size else size

def readInteger? (negative : Bool) (text : List Char) : Option Number :=
  if text.isEmpty || !text.all Char.isDigit then none
  else
    let size := value text
    match Word.ofInt? (if negative then -size else size) with
    | some n => some (.integer n)
    | none => some (.float (nearestFloat negative size 0))

def readDecimal? (negative : Bool) (text : List Char) : Option Number :=
  let whole := text.takeWhile (· != '.')
  let places := (text.dropWhile (· != '.')).drop 1
  let all := whole ++ places
  if all.isEmpty || !all.all Char.isDigit then none
  else some (.float (nearestFloat negative (value all) places.length))

/-- The number that a literal token stands for, behind a folded minus sign if `negative`. -/
def read? (negative : Bool) (token : Token) : Option Number :=
  match token.kind with
  | .integer => readInteger? negative token.text.toList
  | .decimal => readDecimal? negative token.text.toList
  | _ => none

end Reckoner.Numeral

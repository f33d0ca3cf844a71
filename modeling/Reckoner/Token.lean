import Reckoner.Operator

/-! Tokens: what an expression is written with, and where each one starts. -/
namespace Reckoner

inductive Token.Kind where
  | openParen | closeParen
  | operator (op : Operator)
  | integer
  | decimal
  | endOfInput
  | unknown
  deriving DecidableEq, Repr, Inhabited

namespace Token.Kind

def name : Token.Kind → String
  | openParen => "LeftParen"
  | closeParen => "RightParen"
  | operator .multiply => "Mul"
  | operator .divide => "Div"
  | operator .add => "Add"
  | operator .subtract => "Sub"
  | operator .power => "Pow"
  | integer => "IntegerLiteral"
  | decimal => "FloatLiteral"
  | endOfInput => "EndOfInput"
  | unknown => "Unknown"

def isLiteral : Token.Kind → Bool
  | integer | decimal => true
  | _ => false

def operator? : Token.Kind → Option Operator
  | operator op => some op
  | _ => none

def ofCluster : String → Token.Kind
  | "(" => openParen
  | ")" => closeParen
  | "*" => operator .multiply
  | "/" => operator .divide
  | "+" => operator .add
  | "-" => operator .subtract
  | "^" => operator .power
  | _ => unknown

def alternatives : List Token.Kind → String
  | [] => ""
  | [kind] => kind.name
  | [first, last] => first.name ++ " or " ++ last.name
  | kind :: rest => kind.name ++ ", " ++ alternatives rest

def operandStart : List Token.Kind := [openParen, integer, decimal]

def operandEnd : List Token.Kind :=
  [operator .multiply, operator .divide, operator .add, operator .subtract, operator .power,
    closeParen, endOfInput]

end Token.Kind

/-- In a numeral's text the point is written `.` and grouping symbols are left out. -/
structure Token where
  kind : Token.Kind
  text : String
  /-- The index of the cluster that the token starts with. -/
  column : Nat
  deriving DecidableEq, Repr, Inhabited

end Reckoner

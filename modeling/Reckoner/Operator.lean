/-! The five operators, and how tightly each binds. -/
namespace Reckoner

/-- How tightly an operator binds among those of the same nesting depth, loosest first. -/
inductive Tier where
  | additive | multiplicative | exponential
  deriving DecidableEq, Repr, Inhabited

def Tier.rank : Tier → UInt32
  | .additive => 0
  | .multiplicative => 1
  | .exponential => 2

def Tier.name : Tier → String
  | .additive => "Additive"
  | .multiplicative => "Multiplicative"
  | .exponential => "Exponential"

inductive Operator where
  | add | subtract | multiply | divide | power
  deriving DecidableEq, Repr, Inhabited

namespace Operator

def symbol : Operator → String
  | add => "+"
  | subtract => "-"
  | multiply => "*"
  | divide => "/"
  | power => "^"

def tier : Operator → Tier
  | add | subtract => .additive
  | multiply | divide => .multiplicative
  | power => .exponential

def commutes : Operator → Bool
  | add | multiply => true
  | _ => false

/-- Whether a chain of the operator groups to the left: `8-2-2` reads `(8-2)-2`. -/
def leansLeft : Operator → Bool
  | subtract | divide => true
  | _ => false

theorem symbol_injective {a b : Operator} (h : a.symbol = b.symbol) : a = b := by
  cases a <;> cases b <;> simp_all [symbol]

end Operator
end Reckoner

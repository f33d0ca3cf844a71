import Reckoner.Number
import Reckoner.Operator

/-! Expression trees. Each node bears the number under which it was made; an operation also bears
its level, which says how tightly it binds counting the parentheses around it. -/
namespace Reckoner

abbrev Level := UInt32

/-- Each nesting depth has a level for each tier; a deeper one lies above all of them. -/
def Level.of (depth : UInt32) (tier : Tier) : Level :=
  depth * 3 + tier.rank

inductive Tree where
  /-- Nothing yet: the empty tree, or an operand that is still missing. -/
  | hole
  | leaf (id : Nat) (number : Number)
  | op (id : Nat) (operator : Operator) (level : Level) (left right : Tree)
  deriving DecidableEq, Repr, Inhabited

namespace Tree

def id? : Tree → Option Nat
  | hole => none
  | leaf id _ | op id .. => some id

def isHole : Tree → Bool
  | hole => true
  | _ => false

def isLeaf : Tree → Bool
  | leaf .. => true
  | _ => false

def ids : Tree → List Nat
  | hole => []
  | leaf id _ => [id]
  | op id _ _ left right => id :: (left.ids ++ right.ids)

def operations : Tree → Nat
  | op _ _ _ left right => 1 + left.operations + right.operations
  | _ => 0

/-- The numbers of the operations from the root down along the right operands. -/
def spine : Tree → List Nat
  | op id _ _ _ right => id :: right.spine
  | _ => []

/-- The operation that lacks its right operand, the left branch searched first. An operation whose
right operand is a number is taken for complete. -/
def openSlot? : Tree → Option Nat
  | op id _ _ _ hole => some id
  | op _ _ _ _ (leaf ..) => none
  | op _ _ _ left right => left.openSlot? <|> right.openSlot?
  | _ => none

def parent? (target : Nat) : Tree → Option Nat
  | op id _ _ left right =>
    if left.id? = some target || right.id? = some target then some id
    else left.parent? target <|> right.parent? target
  | _ => none

def fillSlot? : Tree → Tree → Option Tree
  | op id operator level left hole, operand => some (op id operator level left operand)
  | op id operator level left right, operand =>
    (right.fillSlot? operand).map (op id operator level left)
  | _, _ => none

end Tree
end Reckoner

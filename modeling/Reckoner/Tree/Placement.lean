import Reckoner.Numeral.Digits
import Reckoner.Tree

/-! Where a new operation goes in a tree whose last operand is missing. It brings the operand that
was read before it. If the open operation binds more loosely, or as tightly and leans right, the
new one becomes its right operand. Otherwise the open operation takes the operand, and the new one
rises past every operation on the right spine that binds more tightly. -/
namespace Reckoner

/-- An operation that awaits its right operand, with the operand read before it. -/
structure Tree.Candidate where
  id : Nat
  operator : Operator
  level : Level
  operand : Tree
  deriving DecidableEq, Repr

inductive Placement.Site where
  | below (id : Nat)
  | root
  | replacing (id : Nat)
  | splicedBelow (id : Nat)
  deriving DecidableEq, Repr, Inhabited

structure Placement where
  id : Nat
  level : Level
  site : Placement.Site
  deriving DecidableEq, Repr, Inhabited

def Placement.text (placement : Placement) : String :=
  let node := "node " ++ Numeral.natText placement.id ++
    " (level " ++ Numeral.natText placement.level.toNat ++ ") "
  match placement.site with
  | .below id => node ++ "goes below node " ++ Numeral.natText id
  | .root => node ++ "becomes the root"
  | .replacing id => node ++ "replaces node " ++ Numeral.natText id
  | .splicedBelow id => node ++ "is spliced below node " ++ Numeral.natText id

namespace Tree

def Candidate.over (new : Candidate) (left : Tree) : Tree :=
  op new.id new.operator new.level left hole

inductive Insertion where
  | placed (tree : Tree) (site : Placement.Site)
  /-- The operand is taken, but everything here binds more tightly than the new operation. -/
  | rising (tree : Tree)
  deriving DecidableEq, Repr

def rise (new : Candidate) : Tree → Insertion
  | op id operator level left right =>
    if new.level < level then .rising (op id operator level left right)
    else if level = new.level && operator.leansLeft then
      .placed (new.over (op id operator level left right)) (.replacing id)
    else .placed (op id operator level left (new.over right)) (.splicedBelow id)
  | tree => .rising tree

/-- The open operation meets the new one. Where it binds more tightly, commutes and has an operation
on its left, its operands are exchanged as it takes the operand. -/
def meet (new : Candidate) (id : Nat) (operator : Operator) (level : Level) (left : Tree) :
    Insertion :=
  if level < new.level || (level = new.level && !operator.leansLeft) then
    .placed (op id operator level left (new.over new.operand)) (.below id)
  else if new.level < level && operator.commutes && !left.isLeaf then
    rise new (op id operator level new.operand left)
  else
    rise new (op id operator level left new.operand)

def descend (new : Candidate) : Tree → Option Insertion
  | op id operator level left hole => some (meet new id operator level left)
  | op id operator level left right =>
    match right.descend new with
    | some (.placed right site) => some (.placed (op id operator level left right) site)
    | some (.rising right) => some (rise new (op id operator level left right))
    | none => none
  | _ => none

def insert? (new : Candidate) (tree : Tree) : Option (Tree × Placement.Site) :=
  match tree.descend new with
  | some (.placed tree site) => some (tree, site)
  | some (.rising tree) => some (new.over tree, .root)
  | none => none

end Tree
end Reckoner

import Reckoner.Tree

/-! Trees drawn with a line for each node, operands below and to the right of their operation. -/
namespace Reckoner.Tree

/-- A subtree that is still to be drawn: what stands before its marker, and on which side of its
operation it hangs. -/
structure Pending where
  tree : Tree
  margin : String
  isLeft : Bool
  deriving DecidableEq, Repr

def nodes : Tree → Nat
  | hole => 0
  | leaf .. => 1
  | op _ _ _ left right => 1 + left.nodes + right.nodes

def nodesOf : List Pending → Nat
  | [] => 0
  | pending :: rest => pending.tree.nodes + nodesOf rest

def label : Tree → String
  | hole => ""
  | leaf _ number => number.text
  | op _ operator .. => operator.symbol

def Pending.line (pending : Pending) : String :=
  pending.margin ++ (if pending.isLeft then "├──" else "└──") ++ pending.tree.label ++ "\n"

/-- The margin of the node's operands; a line goes on below a left operand to its right one. -/
def Pending.innerMargin (pending : Pending) : String :=
  pending.margin ++ (if pending.isLeft then "│   " else "    ")

def lines : List Pending → List String
  | [] => []
  | ⟨hole, _, _⟩ :: rest => lines rest
  | ⟨leaf id number, margin, isLeft⟩ :: rest =>
    Pending.line ⟨leaf id number, margin, isLeft⟩ :: lines rest
  | ⟨op id operator level left right, margin, isLeft⟩ :: rest =>
    let node : Pending := ⟨op id operator level left right, margin, isLeft⟩
    node.line ::
      lines (⟨left, node.innerMargin, true⟩ :: ⟨right, node.innerMargin, false⟩ :: rest)
termination_by pending => 2 * nodesOf pending + pending.length
decreasing_by all_goals simp [nodesOf, nodes] <;> omega

def dump (tree : Tree) : String :=
  String.join (lines [⟨tree, "", false⟩])

end Reckoner.Tree

import Reckoner.Number.Arithmetic
import Reckoner.Tree

/-! Evaluation by reductions. Each one replaces an operation on two numbers by its result, keeping
the node. The next operation is found from the root: to the left as long as the left operand is no
number, else to the right. Main statement: a reduction leaves one operation less, so that
evaluation terminates. -/
namespace Reckoner

structure Reduction where
  left : Number
  operator : Operator
  right : Number
  result : Number
  deriving DecidableEq, Repr

def Reduction.text (r : Reduction) : String :=
  r.left.text ++ " " ++ r.operator.symbol ++ " " ++ r.right.text ++ " = " ++ r.result.text

namespace Tree

/-- The next reduction, and the tree after it. A number has none; an operation on the way without
both of its operands is an error. -/
def reduceOnce : Tree → Except Error (Reduction × Tree)
  | op id operator _ (leaf _ a) (leaf _ b) => do
    let result ← operator.apply a b
    return (⟨a, operator, b, result⟩, leaf id result)
  | op _ _ _ hole _ | op _ _ _ _ hole => .error .incompleteExpression
  | op id operator level (leaf i a) right => do
    let (reduction, right) ← right.reduceOnce
    return (reduction, op id operator level (leaf i a) right)
  | op id operator level left right => do
    let (reduction, left) ← left.reduceOnce
    return (reduction, op id operator level left right)
  | _ => .error .incompleteExpression

theorem operations_reduceOnce {tree after : Tree} {reduction : Reduction}
    (h : tree.reduceOnce = .ok (reduction, after)) :
    after.operations + 1 = tree.operations := by
  fun_induction reduceOnce tree generalizing reduction after with
  | case1 =>
    obtain ⟨result, -, h⟩ := exists_of_bind_eq_ok h
    obtain ⟨-, rfl⟩ := Prod.mk.inj (Except.ok.inj h)
    rfl
  | case4 id operator level i a right _ _ ih =>
    obtain ⟨⟨_, right'⟩, reduced, h⟩ := exists_of_bind_eq_ok h
    obtain ⟨-, rfl⟩ := Prod.mk.inj (Except.ok.inj h)
    have := ih reduced
    simp only [operations]
    omega
  | case5 id operator level left right _ _ _ _ ih =>
    obtain ⟨⟨_, left'⟩, reduced, h⟩ := exists_of_bind_eq_ok h
    obtain ⟨-, rfl⟩ := Prod.mk.inj (Except.ok.inj h)
    have := ih reduced
    simp only [operations]
    omega
  | _ => simp at h

/-- All reductions in order, up to the value or the first error. -/
def reduceAll (tree : Tree) : List Reduction × Except Error Number :=
  match tree with
  | leaf _ number => ([], .ok number)
  | tree =>
    match _h : tree.reduceOnce with
    | .ok (reduction, after) =>
      let (rest, outcome) := after.reduceAll
      (reduction :: rest, outcome)
    | .error error => ([], .error error)
termination_by tree.operations
decreasing_by
  have := operations_reduceOnce _h
  omega

def evaluate (tree : Tree) : Except Error Number :=
  tree.reduceAll.2

end Tree
end Reckoner

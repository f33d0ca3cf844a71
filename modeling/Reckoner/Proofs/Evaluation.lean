import Reckoner.Proofs.Meaning
import Reckoner.Proofs.SourceOrder
import Reckoner.Reduction

/-! Evaluation as recursion. Main statements: the reductions of a complete tree are those of its
operations in postorder, and where they are exact the value is the meaning of the tree. -/
namespace Reckoner

/-- What comes of a computation: its reductions, and the value or the error at which it ends. -/
abbrev Account := List Reduction × Except Error Number

namespace Account

def andThen (first : Account) (next : Number → Account) : Account :=
  match first.2 with
  | .ok n => (first.1 ++ (next n).1, (next n).2)
  | .error error => (first.1, .error error)

def ofOperation (operator : Operator) (a b : Number) : Account :=
  match operator.apply a b with
  | .ok n => ([⟨a, operator, b, n⟩], .ok n)
  | .error error => ([], .error error)

theorem andThen_error (steps : List Reduction) (error : Error) (next : Number → Account) :
    andThen (steps, .error error) next = (steps, .error error) := rfl

theorem andThen_cons (reduction : Reduction) (rest : Account) (next : Number → Account) :
    andThen (reduction :: rest.1, rest.2) next =
      (reduction :: (rest.andThen next).1, (rest.andThen next).2) := by
  obtain ⟨steps, outcome⟩ := rest
  cases outcome <;> rfl

end Account

namespace Tree

/-- The left operand is evaluated, then the right one, then the operation itself. -/
def postorder : Tree → Account
  | hole => ([], .error .incompleteExpression)
  | leaf _ n => ([], .ok n)
  | op _ operator _ left right =>
    left.postorder.andThen fun a => right.postorder.andThen (Account.ofOperation operator a)

theorem postorder_right (id : Nat) (operator : Operator) (level : Level) (i : Nat) (a : Number)
    (right : Tree) : (op id operator level (leaf i a) right).postorder =
      right.postorder.andThen (Account.ofOperation operator a) := rfl

section ReduceOnce
variable (id : Nat) (operator : Operator) (level : Level)

theorem reduceOnce_leaves (i j : Nat) (a b : Number) :
    (op id operator level (leaf i a) (leaf j b)).reduceOnce =
      (operator.apply a b).map fun n => (⟨a, operator, b, n⟩, leaf id n) := by
  rw [reduceOnce]
  cases operator.apply a b <;> rfl

theorem reduceOnce_right (i : Nat) (a : Number) {right : Tree} (whole : right.isHole = false)
    (hleaf : right.isLeaf = false) :
    (op id operator level (leaf i a) right).reduceOnce =
      right.reduceOnce.map fun p => (p.1, op id operator level (leaf i a) p.2) := by
  cases right with
  | hole => contradiction
  | leaf => contradiction
  | op =>
    rw [reduceOnce]
    · cases reduceOnce _ <;> rfl
    all_goals simp

theorem reduceOnce_left {left right : Tree} (whole : left.isHole = false)
    (hleaf : left.isLeaf = false) (wholeRight : right.isHole = false) :
    (op id operator level left right).reduceOnce =
      left.reduceOnce.map fun p => (p.1, op id operator level p.2 right) := by
  cases left with
  | hole => contradiction
  | leaf => contradiction
  | op =>
    cases right with
    | hole => contradiction
    | leaf | op =>
      rw [reduceOnce]
      · cases reduceOnce _ <;> rfl
      all_goals simp

end ReduceOnce

/-- What a reduction leaves of a tree: the tree itself fails at once, or its first reduction in
postorder is made and the others are left. -/
def Leaves (tree : Tree) : Except Error (Reduction × Tree) → Prop
  | .ok (reduction, after) => after.Complete ∧
    tree.postorder = (reduction :: after.postorder.1, after.postorder.2)
  | .error error => tree.postorder = ([], .error error)

theorem leaves_reduceOnce {tree : Tree} (complete : tree.Complete) (hleaf : tree.isLeaf = false) :
    tree.Leaves tree.reduceOnce := by
  induction tree with
  | hole => exact absurd complete.1 (by decide)
  | leaf => contradiction
  | op id operator level left right ihl ihr =>
    obtain ⟨hl, hr⟩ := complete_op.mp complete
    cases hleft : left.isLeaf with
    | false =>
      have ih := ihl hl hleft
      rw [reduceOnce_left _ _ _ hl.1 hleft hr.1]
      cases reduced : left.reduceOnce with
      | error error =>
        rw [reduced] at ih
        change Tree.postorder _ = _
        rw [postorder, ih, Account.andThen_error]
      | ok pair =>
        rw [reduced] at ih
        obtain ⟨hl', hp⟩ := ih
        refine ⟨complete_op.mpr ⟨hl', hr⟩, ?_⟩
        rw [postorder, postorder, hp, Account.andThen_cons]
    | true =>
      obtain ⟨i, a, rfl⟩ : ∃ i a, left = leaf i a := by
        cases left <;> simp_all [isLeaf]
      cases hright : right.isLeaf with
      | false =>
        have ih := ihr hr hright
        rw [reduceOnce_right _ _ _ i a hr.1 hright]
        cases reduced : right.reduceOnce with
        | error error =>
          rw [reduced] at ih
          change Tree.postorder _ = _
          rw [postorder_right, ih, Account.andThen_error]
        | ok pair =>
          rw [reduced] at ih
          obtain ⟨hr', hp⟩ := ih
          refine ⟨complete_op.mpr ⟨hl, hr'⟩, ?_⟩
          rw [postorder_right, postorder_right, hp, Account.andThen_cons]
      | true =>
        obtain ⟨j, b, rfl⟩ : ∃ j b, right = leaf j b := by
          cases right <;> simp_all [isLeaf]
        rw [reduceOnce_leaves]
        have hp : (op id operator level (leaf i a) (leaf j b)).postorder =
            Account.ofOperation operator a b := rfl
        cases applied : operator.apply a b with
        | error error =>
          change Tree.postorder _ = _
          rw [hp, Account.ofOperation, applied]
        | ok n =>
          refine ⟨complete_leaf id n, ?_⟩
          rw [hp, Account.ofOperation, applied]
          rfl

/-- Evaluation by reductions is evaluation in postorder. -/
theorem reduceAll_eq_postorder {tree : Tree} (complete : tree.Complete) :
    tree.reduceAll = tree.postorder := by
  induction hn : tree.operations using Nat.strong_induction_on generalizing tree with
  | _ n ih =>
    cases hleaf : tree.isLeaf with
    | true =>
      obtain ⟨id, a, rfl⟩ : ∃ id a, tree = leaf id a := by
        cases tree <;> simp_all [isLeaf]
      rw [reduceAll]
      rfl
    | false =>
      have leaves := leaves_reduceOnce complete hleaf
      rw [reduceAll]
      · split
        next reduction after reduced =>
          rw [reduced] at leaves
          obtain ⟨whole, hp⟩ := leaves
          have hless := operations_reduceOnce reduced
          rw [ih after.operations (by omega) whole rfl, hp]
        next error reduced =>
          rw [reduced] at leaves
          exact leaves.symm
      · rintro id a rfl
        contradiction

theorem holds_postorder {tree : Tree} (complete : tree.Complete)
    (numbers : ∀ n ∈ tree.numbers, ∃ x, n.Holds x)
    (results : ∀ reduction ∈ tree.postorder.1, reduction.result.isFloat = false) :
    (∀ v, tree.postorder.2 = .ok v → ∃ x, tree.meaning.value? = some x ∧ v.Holds x) ∧
      ∀ error, tree.postorder.2 = .error error →
        error = .divisionByZero ∧ tree.meaning.dividesByZero = true := by
  induction tree with
  | hole => exact absurd complete.1 (by decide)
  | leaf id n =>
    refine ⟨fun v hv => ?_, fun error h => by contradiction⟩
    obtain rfl := Except.ok.inj hv
    obtain ⟨x, hx⟩ := numbers n (by simp [Tree.numbers])
    exact ⟨x, hx.rational?_eq, hx⟩
  | op id operator level left right ihl ihr =>
    obtain ⟨hl, hr⟩ := complete_op.mp complete
    have ihl := ihl hl fun n hn => numbers n (List.mem_append_left _ hn)
    have ihr := ihr hr fun n hn => numbers n (List.mem_append_right _ hn)
    rw [postorder] at results ⊢
    rw [meaning]
    generalize left.postorder = first at ihl results ⊢
    generalize right.postorder = second at ihr results ⊢
    obtain ⟨steps, outcome⟩ := first
    cases outcome with
    | error error =>
      -- the left operand fails, and so does the operation
      obtain ⟨-, herror⟩ := ihl results
      refine ⟨fun v hv => by contradiction, fun e he => ?_⟩
      obtain ⟨hkind, hd⟩ := herror e he
      exact ⟨hkind, by simp [Meaning.combine, hd]⟩
    | ok a =>
      obtain ⟨hvalue, -⟩ := ihl fun r hr => results r (List.mem_append_left _ hr)
      obtain ⟨x, hx, ha⟩ := hvalue a rfl
      obtain ⟨more, outcome⟩ := second
      cases outcome with
      | error error =>
        obtain ⟨-, herror⟩ := ihr fun r hr => results r (List.mem_append_right _ hr)
        refine ⟨fun v hv => by contradiction, fun e he => ?_⟩
        obtain ⟨hkind, hd⟩ := herror e he
        exact ⟨hkind, by simp [Meaning.combine, hd]⟩
      | ok b =>
        obtain ⟨hvalue, -⟩ := ihr fun r hr =>
          results r (List.mem_append_right _ (List.mem_append_left _ hr))
        obtain ⟨y, hy, hb⟩ := hvalue b rfl
        have last : ∀ r ∈ (Account.ofOperation operator a b).1, r.result.isFloat = false :=
          fun r hr => results r (List.mem_append_right _ (List.mem_append_right _ hr))
        change (∀ v, (Account.ofOperation operator a b).2 = .ok v → _) ∧
          ∀ error, (Account.ofOperation operator a b).2 = .error error → _
        rw [Account.ofOperation] at last ⊢
        cases applied : operator.apply a b with
        | ok n =>
          rw [applied] at last
          refine ⟨fun v hv => ?_, fun e he => by contradiction⟩
          obtain rfl := Except.ok.inj hv
          have hfloat := last ⟨a, operator, b, n⟩ (List.mem_singleton.mpr rfl)
          obtain ⟨z, hz, hn⟩ := Operator.holds_apply ha hb applied hfloat
          exact ⟨z, by simp [Meaning.combine, hx, hy, hz], hn⟩
        | error error =>
          refine ⟨fun v hv => by contradiction, fun e he => ?_⟩
          obtain ⟨rfl, rfl, hkind⟩ := Operator.apply_error hb applied
          exact ⟨(Except.error.inj he).symm.trans hkind, by simp [Meaning.combine, hy]⟩

end Tree
end Reckoner

import Reckoner.Proofs.Evaluation
import Reckoner.Proofs.Nodes
import Reckoner.Session

/-! Evaluation as recursion over the operations of a tree. Main statement: a session comes to the
value that recursion gives, and its reductions are those of the operations in postorder, up to the
first that divides by zero. -/
namespace Reckoner

theorem Operator.apply_eq_error_iff {operator : Operator} {a b : Number} {error : Error} :
    operator.apply a b = .error error ↔
      operator = .divide ∧ b.isZero = true ∧ error = .divisionByZero := by
  cases operator with
  | divide =>
    rw [apply, Number.div]
    split
    next hz => simp [hz, eq_comm]
    next hz => simp [hz]
  | _ => simp [apply]

namespace Tree

/-- The value of the left operand comes first, then that of the right one, then what the operator
makes of the two. -/
def value : Tree → Except Error Number
  | hole => .error .incompleteExpression
  | leaf _ n => .ok n
  | op _ operator _ left right => do
    let a ← left.value
    let b ← right.value
    operator.apply a b

/-- The operations, each with its operands, in postorder. -/
def traversal : Tree → List Tree
  | op id operator level left right =>
    left.traversal ++ (right.traversal ++ [op id operator level left right])
  | _ => []

/-- What the operation at the root makes of the values of its operands. -/
def reduction : Tree → Except Error Reduction
  | op _ operator _ left right => do
    let a ← left.value
    let b ← right.value
    let result ← operator.apply a b
    return ⟨a, operator, b, result⟩
  | _ => .error .incompleteExpression

/-- The operation at the root divides a number by a number that is zero. -/
def DividesByZero : Tree → Prop
  | op _ operator _ left right =>
    operator = .divide ∧ ∃ a b, left.value = .ok a ∧ right.value = .ok b ∧ b.isZero = true
  | _ => False

/-- The reductions are those of all operations, or of the operations before the first that divides
by zero. -/
def Recounts (operations : List Tree) : Account → Prop
  | (steps, .ok _) => operations.map reduction = steps.map .ok
  | (steps, .error error) => error = .divisionByZero ∧
    ∃ before failing after, operations = before ++ failing :: after ∧
      before.map reduction = steps.map .ok ∧ failing.DividesByZero

theorem length_traversal (tree : Tree) : tree.traversal.length = tree.operations := by
  induction tree with
  | hole | leaf => rfl
  | op id operator level left right ihl ihr =>
    simp only [traversal, operations, List.length_append, List.length_singleton, ihl, ihr]
    omega

theorem outcome_postorder (tree : Tree) : tree.postorder.2 = tree.value := by
  induction tree with
  | hole | leaf => rfl
  | op id operator level left right ihl ihr =>
    rw [postorder, value, ← ihl, ← ihr]
    generalize left.postorder = first
    generalize right.postorder = second
    obtain ⟨_, _ | a⟩ := first
    · rfl
    obtain ⟨_, _ | b⟩ := second
    · rfl
    change (Account.ofOperation operator a b).2 = operator.apply a b
    rw [Account.ofOperation]
    cases operator.apply a b <;> rfl

section Operation
variable (id : Nat) (operator : Operator) (level : Level) {left right : Tree} {a b : Number}
  (hl : left.value = .ok a) (hr : right.value = .ok b)
include hl hr

theorem value_op : (op id operator level left right).value = operator.apply a b := by
  rw [value, hl, hr]
  rfl

theorem reduction_op : (op id operator level left right).reduction =
    (operator.apply a b).map fun n => ⟨a, operator, b, n⟩ := by
  rw [reduction, hl, hr]
  change (operator.apply a b >>= fun n => pure _) = _
  cases operator.apply a b <;> rfl

end Operation

theorem exists_values_of_reduction {tree : Tree} {r : Reduction} (h : tree.reduction = .ok r) :
    r.operator.apply r.left r.right = .ok r.result ∧ tree.value = .ok r.result := by
  cases tree with
  | hole | leaf => contradiction
  | op id operator level left right =>
    obtain ⟨a, hl, h⟩ := exists_of_bind_eq_ok h
    obtain ⟨b, hr, h⟩ := exists_of_bind_eq_ok h
    obtain ⟨n, applied, h⟩ := exists_of_bind_eq_ok h
    obtain rfl := Except.ok.inj h
    exact ⟨applied, (value_op id operator level hl hr).trans applied⟩

theorem value_of_dividesByZero {tree : Tree} (h : tree.DividesByZero) :
    tree.value = .error .divisionByZero := by
  cases tree with
  | hole | leaf => exact h.elim
  | op id operator level left right =>
    obtain ⟨hd, a, b, hl, hr, hz⟩ := h
    rw [value_op id operator level hl hr, Operator.apply_eq_error_iff]
    exact ⟨hd, hz, rfl⟩

/-- The account of a tree recounts its operations in postorder. -/
theorem recounts_postorder {tree : Tree} (complete : tree.Complete) :
    Recounts tree.traversal tree.postorder := by
  induction tree with
  | hole => exact absurd complete.1 (by decide)
  | leaf => rfl
  | op id operator level left right ihl ihr =>
    obtain ⟨hl, hr⟩ := complete_op.mp complete
    have ihl := ihl hl
    have ihr := ihr hr
    have hleft := outcome_postorder left
    have hright := outcome_postorder right
    rw [postorder, traversal]
    generalize left.postorder = first at ihl hleft ⊢
    generalize right.postorder = second at ihr hright ⊢
    obtain ⟨steps, _ | a⟩ := first
    · -- the left operand fails, and what comes behind it is not reached
      obtain ⟨hkind, before, failing, after, hsplit, hbefore, hfailing⟩ := ihl
      exact ⟨hkind, before, failing, _, by rw [hsplit, List.append_assoc]; rfl, hbefore, hfailing⟩
    have hsteps : left.traversal.map reduction = steps.map .ok := ihl
    obtain ⟨more, _ | b⟩ := second
    · obtain ⟨hkind, before, failing, after, hsplit, hbefore, hfailing⟩ := ihr
      refine ⟨hkind, left.traversal ++ before, failing, _, by rw [hsplit]; simp; rfl, ?_, hfailing⟩
      rw [List.map_append, hbefore, hsteps]
      exact List.map_append.symm
    have hmore : right.traversal.map reduction = more.map .ok := ihr
    have hred := reduction_op id operator level hleft.symm hright.symm
    change Recounts _ (steps ++ (more ++ (Account.ofOperation operator a b).1),
      (Account.ofOperation operator a b).2)
    rw [Account.ofOperation]
    cases applied : operator.apply a b with
    | ok n =>
      rw [applied] at hred
      change List.map _ _ = List.map _ _
      simp only [List.map_append, List.map_singleton, hsteps, hmore, hred, Except.map]
    | error error =>
      obtain ⟨hd, hz, hkind⟩ := Operator.apply_eq_error_iff.mp applied
      refine ⟨hkind, left.traversal ++ right.traversal, _, [], (List.append_assoc ..).symm, ?_,
        hd, a, b, hleft.symm, hright.symm, hz⟩
      simp only [List.map_append, List.append_nil, hsteps, hmore]

theorem evaluate_eq_value {tree : Tree} (complete : tree.Complete) : tree.evaluate = tree.value := by
  rw [evaluate, reduceAll_eq_postorder complete, outcome_postorder]

theorem exists_value_of_mem_traversal {tree operation : Tree} {v : Number}
    (hv : tree.value = .ok v) (mem : operation ∈ tree.traversal) :
    ∃ w, operation.value = .ok w := by
  induction tree generalizing v with
  | hole | leaf => exact absurd mem List.not_mem_nil
  | op id operator level left right ihl ihr =>
    obtain ⟨a, hl, h⟩ := exists_of_bind_eq_ok hv
    obtain ⟨b, hr, -⟩ := exists_of_bind_eq_ok h
    simp only [traversal, List.mem_append, List.mem_singleton] at mem
    rcases mem with mem | mem | rfl
    · exact ihl hl mem
    · exact ihr hr mem
    · exact ⟨v, hv⟩

theorem dividesByZero_of_value {tree : Tree} (complete : tree.Complete) {error : Error}
    (h : tree.value = .error error) :
    error = .divisionByZero ∧ ∃ operation ∈ tree.traversal, operation.DividesByZero := by
  have recounts := recounts_postorder complete
  rw [← outcome_postorder] at h
  generalize tree.postorder = account at h recounts
  obtain ⟨steps, _ | v⟩ := account
  · obtain rfl := Except.error.inj h
    obtain ⟨hkind, before, failing, after, hsplit, -, hfailing⟩ := recounts
    exact ⟨hkind, failing, by simp [hsplit], hfailing⟩
  · contradiction

/-- A complete tree has a value unless one of its operations divides by zero. -/
theorem exists_error_iff {tree : Tree} (complete : tree.Complete) :
    (∃ error, tree.value = .error error) ↔
      ∃ operation ∈ tree.traversal, operation.DividesByZero := by
  constructor
  · rintro ⟨error, h⟩
    exact (dividesByZero_of_value complete h).2
  · rintro ⟨operation, mem, hzero⟩
    cases hv : tree.value with
    | error error => exact ⟨error, rfl⟩
    | ok v =>
      obtain ⟨w, hw⟩ := exists_value_of_mem_traversal hv mem
      rw [value_of_dividesByZero hzero] at hw
      contradiction

theorem apply_of_recounted {operations : List Tree} {steps : List Reduction}
    (h : operations.map reduction = steps.map .ok) :
    ∀ r ∈ steps, r.operator.apply r.left r.right = .ok r.result := by
  intro r hr
  have mem : Except.ok r ∈ operations.map reduction := by
    rw [h]
    exact List.mem_map_of_mem hr
  obtain ⟨operation, -, hred⟩ := List.mem_map.mp mem
  exact (exists_values_of_reduction hred).1

theorem result_of_recounted {tree : Tree} {steps : List Reduction} {v : Number}
    (h : tree.traversal.map reduction = steps.map .ok) (hv : tree.value = .ok v) :
    ∀ last ∈ steps.getLast?, last.result = v := by
  intro last hlast
  cases tree with
  | hole | leaf =>
    obtain rfl : steps = [] := List.map_eq_nil_iff.mp h.symm
    contradiction
  | op id operator level left right =>
    have hl := congrArg List.getLast? h
    rw [traversal, List.getLast?_map, List.getLast?_map, ← List.append_assoc,
      List.getLast?_concat, Option.mem_def.mp hlast] at hl
    have hred := (exists_values_of_reduction (Option.some.inj hl)).2
    rw [hv] at hred
    exact (Except.ok.inj hred).symm

end Tree

section Parse
variable {source : String} {symbols : Numeral.Symbols} {tree : Tree}

/-- Evaluation of a parsed tree refines recursion over it. The reductions made are those of all
operations in postorder, or of the operations before the first that divides by zero. This
speaks of wrapping arithmetic: zero divided by a fraction whose numerator is the least word is
zero. -/
theorem evaluate_refines_recursion (h : (parse source symbols).tree = .ok tree)
    (session : Session) :
    (session.evaluate tree).1 = tree.value ∧
    ∃ steps : List Reduction,
      (session.evaluate tree).2 =
        (if session.recording then { session with steps := session.steps ++ steps } else session) ∧
      (∀ r ∈ steps, r.operator.apply r.left r.right = .ok r.result) ∧
      (∀ v, tree.value = .ok v →
        tree.traversal.map Tree.reduction = steps.map .ok ∧ steps.length = tree.operations ∧
          ∀ last ∈ steps.getLast?, last.result = v) ∧
      ∀ error, tree.value = .error error → error = .divisionByZero ∧
        ∃ before failing after, tree.traversal = before ++ failing :: after ∧
          before.map Tree.reduction = steps.map .ok ∧ failing.DividesByZero := by
  have complete := (sourceOrder_of_parse h).1
  have hvalue := Tree.outcome_postorder tree
  have recounts := Tree.recounts_postorder complete
  rw [← Tree.reduceAll_eq_postorder complete] at hvalue recounts
  refine ⟨hvalue, tree.reduceAll.1, rfl, ?_⟩
  generalize tree.reduceAll = account at hvalue recounts
  obtain ⟨steps, error | v⟩ := account
  · obtain ⟨hkind, before, failing, after, hsplit, hbefore, hfailing⟩ := recounts
    refine ⟨Tree.apply_of_recounted hbefore, fun v hv => ?_, fun e he => ?_⟩
    · rw [← hvalue] at hv
      contradiction
    · rw [← hvalue] at he
      obtain rfl := Except.error.inj he
      exact ⟨hkind, before, failing, after, hsplit, hbefore, hfailing⟩
  · have recounted : tree.traversal.map Tree.reduction = steps.map .ok := recounts
    refine ⟨Tree.apply_of_recounted recounted, fun w hw => ⟨recounted, ?_, ?_⟩, fun e he => ?_⟩
    · have hlength := congrArg List.length recounted
      rw [List.length_map, List.length_map, Tree.length_traversal] at hlength
      exact hlength.symm
    · exact Tree.result_of_recounted recounted hw
    · rw [← hvalue] at he
      contradiction

theorem reductions_before_zero_divisor :
    ∃ tree steps, (parse "6/2-1/(2-2)" .standard).tree = .ok tree ∧
      (Session.start true).evaluate tree = (.error .divisionByZero, ⟨true, steps⟩) ∧
      ∃ before failing after, tree.traversal = before ++ failing :: after ∧
        before.map Tree.reduction = steps.map .ok ∧ failing.DividesByZero := by
  have h : (parse "6/2-1/(2-2)" .standard).tree = .ok
      (.op 3 .subtract 0
        (.op 1 .divide 1 (.leaf 0 (.integer 6)) (.leaf 2 (.integer 2)))
        (.op 5 .divide 1 (.leaf 4 (.integer 1))
          (.op 7 .subtract 3 (.leaf 6 (.integer 2)) (.leaf 8 (.integer 2))))) :=
    eq_ok_of_toOption (by decide +kernel)
  obtain ⟨hvalue, steps, hsteps, -, -, failed⟩ := evaluate_refines_recursion h (.start true)
  refine ⟨_, steps, h, Prod.ext ?_ hsteps, (failed .divisionByZero (by decide +kernel)).2⟩
  exact hvalue.trans (by dsimp only; decide +kernel)

end Parse
end Reckoner

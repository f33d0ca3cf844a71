import Reckoner.Proofs.Traversal

/-! Sessions over many trees. Main statement: each tree comes to what it comes to alone, whatever
has been evaluated before, and a recording session holds the reductions of all trees, one tree after
another and each once. -/
namespace Reckoner

namespace Tree

theorem reduceAll_of_ok {tree after : Tree} {reduction : Reduction}
    (h : tree.reduceOnce = .ok (reduction, after)) :
    tree.reduceAll = (reduction :: after.reduceAll.1, after.reduceAll.2) := by
  rw [reduceAll]
  · split
    next reduced =>
      rw [h] at reduced
      obtain ⟨rfl, rfl⟩ := Prod.mk.inj (Except.ok.inj reduced)
      rfl
    next reduced =>
      rw [h] at reduced
      contradiction
  · rintro id number rfl
    contradiction

theorem reduceAll_of_error {tree : Tree} {error : Error}
    (unfinished : ∀ id number, tree ≠ leaf id number) (h : tree.reduceOnce = .error error) :
    tree.reduceAll = ([], .error error) := by
  rw [reduceAll]
  · split
    next reduced =>
      rw [h] at reduced
      contradiction
    next reduced =>
      rw [h] at reduced
      rw [Except.error.inj reduced]
  · exact unfinished

end Tree

namespace Session

/-- The session with more reductions behind those it has, if it is recording. -/
def keep (session : Session) (reductions : List Reduction) : Session :=
  if session.recording then { session with steps := session.steps ++ reductions } else session

@[simp] theorem keep_nil (session : Session) : session.keep [] = session := by
  unfold keep
  split
  · rw [List.append_nil]
  · rfl

theorem keep_keep (session : Session) (first second : List Reduction) :
    (session.keep first).keep second = session.keep (first ++ second) := by
  obtain ⟨recording, steps⟩ := session
  cases recording with
  | false => rfl
  | true => exact congrArg (Session.mk true) (List.append_assoc ..)

theorem keep_start (recording : Bool) (reductions : List Reduction) :
    (start recording).keep reductions = ⟨recording, if recording then reductions else []⟩ := by
  cases recording <;> rfl

theorem evaluate_eq_keep (session : Session) (tree : Tree) :
    session.evaluate tree = (tree.evaluate, session.keep tree.reduceAll.1) := rfl

/-- A session evaluates a tree turn by turn and keeps each reduction as soon as it has been made. It
ends with a number, or at the first error. -/
inductive Runs : Session → Tree → Except Error Number → Session → Prop where
  | number {session : Session} {id : Nat} {n : Number} : Runs session (.leaf id n) (.ok n) session
  | error {session : Session} {tree : Tree} {error : Error}
      (unfinished : ∀ id n, tree ≠ .leaf id n) (failed : tree.reduceOnce = .error error) :
      Runs session tree (.error error) session
  | turn {session stop : Session} {tree after : Tree} {reduction : Reduction}
      {outcome : Except Error Number} (reduced : tree.reduceOnce = .ok (reduction, after))
      (others : Runs (session.keep [reduction]) after outcome stop) : Runs session tree outcome stop

theorem evaluate_leaf (session : Session) (id : Nat) (n : Number) :
    session.evaluate (.leaf id n) = (.ok n, session) := by
  rw [evaluate_eq_keep, Tree.evaluate, Tree.reduceAll, keep_nil]

theorem evaluate_of_error (session : Session) {tree : Tree} {error : Error}
    (unfinished : ∀ id n, tree ≠ .leaf id n) (h : tree.reduceOnce = .error error) :
    session.evaluate tree = (.error error, session) := by
  rw [evaluate_eq_keep, Tree.evaluate, Tree.reduceAll_of_error unfinished h, keep_nil]

theorem evaluate_of_reduceOnce (session : Session) {tree after : Tree} {reduction : Reduction}
    (h : tree.reduceOnce = .ok (reduction, after)) :
    session.evaluate tree = (session.keep [reduction]).evaluate after := by
  rw [evaluate_eq_keep, evaluate_eq_keep, keep_keep, Tree.evaluate, Tree.reduceAll_of_ok h]
  rfl

theorem Runs.evaluate_eq {session stop : Session} {tree : Tree} {outcome : Except Error Number}
    (h : Runs session tree outcome stop) : session.evaluate tree = (outcome, stop) := by
  induction h with
  | number => exact evaluate_leaf ..
  | error unfinished failed => exact evaluate_of_error _ unfinished failed
  | turn reduced _ ih => rw [evaluate_of_reduceOnce _ reduced, ih]

theorem runs_evaluate (session : Session) (tree : Tree) :
    Runs session tree (session.evaluate tree).1 (session.evaluate tree).2 := by
  induction h : tree.operations using Nat.strong_induction_on generalizing session tree with
  | _ n ih =>
    subst h
    cases reduced : tree.reduceOnce with
    | ok pair =>
      obtain ⟨reduction, after⟩ := pair
      have less := Tree.operations_reduceOnce reduced
      rw [evaluate_of_reduceOnce session reduced]
      exact .turn reduced (ih after.operations (by omega) _ after rfl)
    | error error =>
      cases tree with
      | leaf id n =>
        rw [evaluate_leaf]
        exact .number
      | hole | op =>
        rw [evaluate_of_error session (by simp) reduced]
        exact .error (by simp) reduced

/-- Evaluation comes to what the turns come to. -/
theorem runs_iff {session stop : Session} {tree : Tree} {outcome : Except Error Number} :
    Runs session tree outcome stop ↔ session.evaluate tree = (outcome, stop) := by
  constructor
  · exact Runs.evaluate_eq
  · intro h
    have runs := session.runs_evaluate tree
    rwa [h] at runs

/-- Evaluates trees one after another in one session. -/
def evaluateAll (session : Session) : List Tree → List (Except Error Number) × Session
  | [] => ([], session)
  | tree :: rest =>
    let (outcome, session) := session.evaluate tree
    let (outcomes, session) := session.evaluateAll rest
    (outcome :: outcomes, session)

/-- Neither the outcomes nor the reductions kept depend on what the session has seen before. -/
theorem evaluateAll_eq (session : Session) (trees : List Tree) :
    session.evaluateAll trees =
      (trees.map Tree.evaluate, session.keep (trees.flatMap fun tree => tree.reduceAll.1)) := by
  induction trees generalizing session with
  | nil => simp [evaluateAll]
  | cons tree rest ih =>
    simp only [evaluateAll, evaluate_eq_keep, ih, keep_keep]
    rfl

theorem recounts_start {tree : Tree} (complete : tree.Complete) :
    Tree.Recounts tree.traversal
      (((start true).evaluate tree).2.steps, ((start true).evaluate tree).1) := by
  have recounts := Tree.recounts_postorder complete
  rwa [← Tree.reduceAll_eq_postorder complete] at recounts

end Session

/-- Recording only observes. In a session of any length, each outcome is that of the tree alone in a
fresh session, and the reductions recorded are those of fresh recording sessions one after another.
It makes no difference that each one is recorded as soon as it has been made. This speaks of
wrapping arithmetic: zero divided by a fraction whose numerator is the least word is zero. -/
theorem recording_observes :
    (∀ (recording : Bool) (trees : List Tree),
      (Session.start recording).evaluateAll trees =
        (trees.map fun tree => ((Session.start false).evaluate tree).1,
          ⟨recording, if recording then
            trees.flatMap fun tree => ((Session.start true).evaluate tree).2.steps else []⟩)) ∧
    (∀ (session : Session) (tree : Tree) (outcome : Except Error Number) (stop : Session),
      session.Runs tree outcome stop ↔ session.evaluate tree = (outcome, stop)) ∧
    (Session.start true).evaluate .hole = (.error .incompleteExpression, ⟨true, []⟩) ∧
    ∀ (source : String) (symbols : Numeral.Symbols) (tree : Tree),
      (parse source symbols).tree = .ok tree →
      Tree.Recounts tree.traversal (((Session.start true).evaluate tree).2.steps,
        ((Session.start true).evaluate tree).1) := by
  refine ⟨fun recording trees => ?_, fun _ _ _ _ => Session.runs_iff, ?_, fun _ _ _ h => ?_⟩
  · rw [Session.evaluateAll_eq, Session.keep_start]
    rfl
  · exact Session.evaluate_of_error _ (by simp) rfl
  · exact Session.recounts_start (sourceOrder_of_parse h).1

theorem session_survives_failure :
    let sum : Tree := .op 1 .add 3 (.leaf 0 (.integer 1)) (.leaf 2 (.integer 2))
    let tree : Tree := .op 3 .divide 1 sum
      (.op 5 .subtract 3 (.leaf 4 (.integer 2)) (.leaf 6 (.integer 2)))
    (parse "(1+2)/(2-2)" .standard).tree = .ok tree ∧
      (Session.start true).evaluateAll [tree, .hole, sum] =
        ([.error .divisionByZero, .error .incompleteExpression, .ok (.integer 3)],
          ⟨true, [⟨.integer 1, .add, .integer 2, .integer 3⟩,
            ⟨.integer 2, .subtract, .integer 2, .integer 0⟩,
            ⟨.integer 1, .add, .integer 2, .integer 3⟩]⟩) ∧
      Tree.Recounts tree.traversal (((Session.start true).evaluate tree).2.steps,
        ((Session.start true).evaluate tree).1) := by
  intro sum tree
  obtain ⟨sessions, -, -, recounts⟩ := recording_observes
  have h : (parse "(1+2)/(2-2)" .standard).tree = .ok tree := eq_ok_of_toOption (by decide +kernel)
  exact ⟨h, (sessions true _).trans (by decide +kernel), recounts _ _ _ h⟩

end Reckoner

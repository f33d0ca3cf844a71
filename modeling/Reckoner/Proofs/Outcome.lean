import Reckoner.CommandLine
import Reckoner.Proofs.Pieces
import Reckoner.Proofs.Traversal

/-! What can go wrong, and at which stage. Main statement: a source without a tree has an error of
its spelling, a tree without a value divides by zero, and the exit code of an answered expression
tells the two apart. -/
namespace Reckoner

namespace Scanner

theorem error_next {s : Scanner} {error : Error} (h : s.next.1 = .error error) :
    (∃ message, error = .malformedNumber message) ∨
      ∃ message, error = .characterTooLarge message := by
  have found := s.finds_next
  generalize s.next = answer at found h
  obtain ⟨_, stop⟩ := answer
  obtain rfl := h
  cases found with
  | foreign => exact .inr ⟨_, rfl⟩
  | secondPoint | lonePoint => exact .inl ⟨_, rfl⟩

theorem error_last_scan {s : Scanner} {error : Error} (h : s.scan.2.1 = .error error) :
    (∃ message, error = .malformedNumber message) ∨
      ∃ message, error = .characterTooLarge message := by
  fun_induction scan s with
  | case1 s e stop hn =>
    obtain rfl := Except.error.inj h
    exact error_next (by rw [hn])
  | case2 => contradiction
  | case3 s token stop _ _ tokens last hs ih =>
    rw [hs] at ih
    exact ih h

end Scanner

theorem error_of_parse {source : String} {symbols : Numeral.Symbols} {error : Error}
    (h : (parse source symbols).tree = .error error) :
    (∃ message, error = .malformedNumber message) ∨
      (∃ message, error = .characterTooLarge message) ∨
      ∃ text found expected message, error = .unexpectedToken text found expected message := by
  cases violation_of_error source symbols h with
  | unscanned error stopped => exact (Scanner.error_last_scan stopped).imp_right .inl
  | unexpected => exact .inr (.inr ⟨_, _, _, _, rfl⟩)

namespace Calculation
variable {source : String} {symbols : Numeral.Symbols}

theorem tree_ofSource : (ofSource source symbols).tree = (parse source symbols).tree := by
  rw [ofSource]
  cases (parse source symbols).tree <;> rfl

theorem outcome_ofSource :
    (ofSource source symbols).outcome = (ofSource source symbols).tree.bind Tree.evaluate := by
  rw [ofSource]
  cases (parse source symbols).tree <;> rfl

theorem outcome_of_tree_error {error : Error} (h : (ofSource source symbols).tree = .error error) :
    (ofSource source symbols).outcome = .error error := by
  rw [outcome_ofSource, h]
  rfl

section Tree
variable {tree : Tree} (h : (ofSource source symbols).tree = .ok tree)
include h

theorem outcome_of_tree : (ofSource source symbols).outcome = tree.value := by
  rw [outcome_ofSource, h]
  rw [tree_ofSource] at h
  exact Tree.evaluate_eq_value (sourceOrder_of_parse h).1

theorem exists_error_of_tree_iff : (∃ error, (ofSource source symbols).outcome = .error error) ↔
    ∃ operation ∈ tree.traversal, operation.DividesByZero := by
  rw [outcome_of_tree h]
  rw [tree_ofSource] at h
  exact Tree.exists_error_iff (sourceOrder_of_parse h).1

theorem divisionByZero_of_tree {error : Error}
    (he : (ofSource source symbols).outcome = .error error) : error = .divisionByZero := by
  rw [outcome_of_tree h] at he
  rw [tree_ofSource] at h
  exact (Tree.dividesByZero_of_value (sourceOrder_of_parse h).1 he).1

end Tree

/-- An error is syntactic exactly if there is no tree, and it never tells of numbers that do not fit
or of missing operands. -/
theorem kind_of_outcome {error : Error} (h : (ofSource source symbols).outcome = .error error) :
    (∀ message, error ≠ .overflow message) ∧ error ≠ .incompleteExpression ∧
      (error.isSyntactic = true ↔ ∃ e, (ofSource source symbols).tree = .error e) := by
  cases ht : (ofSource source symbols).tree with
  | error e =>
    obtain rfl := Except.error.inj ((outcome_of_tree_error ht).symm.trans h)
    rw [tree_ofSource] at ht
    rcases error_of_parse ht with ⟨_, rfl⟩ | ⟨_, rfl⟩ | ⟨_, _, _, _, rfl⟩ <;>
      simp [Error.isSyntactic]
  | ok tree =>
    obtain rfl := divisionByZero_of_tree ht h
    simp [Error.divisionByZero, Error.isSyntactic]

end Calculation

namespace CommandLine

theorem exitCode_answer (options : Options) (expression : String) :
    (answer options expression).exitCode =
      exitCode (Calculation.ofSource expression options.symbols).outcome := by
  unfold answer
  dsimp only
  split <;> rfl

theorem exitCode_run (options : Options) {expression : String} (h : expression ≠ "")
    (input : List UInt8) :
    (run (.evaluate options expression) input).exitCode =
      exitCode (Calculation.ofSource expression options.symbols).outcome := by
  have hempty : expression.isEmpty = false := by
    rw [← Bool.not_eq_true, String.isEmpty_iff]
    exact h
  rw [run, hempty]
  exact exitCode_answer options expression

end CommandLine

/-- The kind of the error tells whether there was a tree, and so does the exit code. Numbers that do
not fit and missing operands are no errors of a calculation. -/
theorem error_tells_stage :
    (∀ (source : String) (symbols : Numeral.Symbols),
      let calculation := Calculation.ofSource source symbols
      (∀ error, calculation.tree = .error error → calculation.outcome = .error error ∧
        ((∃ message, error = .malformedNumber message) ∨
          (∃ message, error = .characterTooLarge message) ∨
          ∃ text found expected message, error = .unexpectedToken text found expected message)) ∧
      (∀ tree error, calculation.tree = .ok tree → calculation.outcome = .error error →
        error = .divisionByZero) ∧
      ∀ error, calculation.outcome = .error error →
        (∀ message, error ≠ .overflow message) ∧ error ≠ .incompleteExpression ∧
        (error.isSyntactic = true ↔ ∃ e, calculation.tree = .error e)) ∧
    ∀ (options : CommandLine.Options) (expression : String) (input : List UInt8),
      expression ≠ "" →
      let calculation := Calculation.ofSource expression options.symbols
      let code := (CommandLine.run (.evaluate options expression) input).exitCode
      (code = 0 ↔ ∃ v, calculation.outcome = .ok v) ∧
      (code = 65 ↔ ∃ error, calculation.tree = .error error) ∧
      (code = 70 ↔ ∃ tree, calculation.tree = .ok tree ∧
        ∃ operation ∈ tree.traversal, operation.DividesByZero) := by
  constructor
  · intro source symbols calculation
    refine ⟨fun error h => ⟨Calculation.outcome_of_tree_error h, ?_⟩,
      fun tree error ht h => Calculation.divisionByZero_of_tree ht h,
      fun error h => Calculation.kind_of_outcome h⟩
    exact error_of_parse (Calculation.tree_ofSource.symm.trans h)
  · intro options expression input hne calculation code
    have hcode : code = CommandLine.exitCode calculation.outcome :=
      CommandLine.exitCode_run options hne input
    rw [hcode]
    cases ht : calculation.tree with
    | error error =>
      have ho : calculation.outcome = .error error := Calculation.outcome_of_tree_error ht
      have syntactic := (Calculation.kind_of_outcome ho).2.2.mpr ⟨error, ht⟩
      simp [ho, CommandLine.exitCode, syntactic]
    | ok tree =>
      have divides : (∃ error, calculation.outcome = .error error) ↔ _ :=
        Calculation.exists_error_of_tree_iff ht
      simp only [Except.ok.injEq, exists_eq_left', ← divides]
      cases ho : calculation.outcome with
      | ok v => simp [CommandLine.exitCode]
      | error error =>
        obtain rfl := Calculation.divisionByZero_of_tree ht ho
        simp [CommandLine.exitCode, Error.divisionByZero, Error.isSyntactic]

theorem exitCode_of_zero_divisor :
    "6-1/(2-2)" ≠ "" ∧ (CommandLine.run (.evaluate {} "6-1/(2-2)") []).exitCode = 70 := by
  have hne : "6-1/(2-2)" ≠ "" := by decide
  have h : (Calculation.ofSource "6-1/(2-2)" (CommandLine.Options.symbols {})).tree = .ok
      (.op 1 .subtract 0 (.leaf 0 (.integer 6))
        (.op 3 .divide 1 (.leaf 2 (.integer 1))
          (.op 5 .subtract 3 (.leaf 4 (.integer 2)) (.leaf 6 (.integer 2))))) :=
    Calculation.tree_ofSource.trans (eq_ok_of_toOption (by decide +kernel))
  refine ⟨hne, (error_tells_stage.2 {} _ [] hne).2.2.mpr ⟨_, h,
    .op 3 .divide 1 (.leaf 2 (.integer 1))
      (.op 5 .subtract 3 (.leaf 4 (.integer 2)) (.leaf 6 (.integer 2))), by decide +kernel, ?_⟩⟩
  exact ⟨rfl, .integer 1, .integer 0, by decide +kernel, by decide +kernel, by decide⟩

end Reckoner

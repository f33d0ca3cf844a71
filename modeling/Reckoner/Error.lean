import Reckoner.Text.Caret
import Reckoner.Token

/-! Why a source has no value. An error keeps its message, which may show the place in the source. -/
namespace Reckoner

inductive Error where
  | malformedNumber (message : String)
  /-- A cluster outside ASCII that is no symbol of a numeral. -/
  | characterTooLarge (message : String)
  | unexpectedToken (text : String) (found : Token.Kind) (expected : List Token.Kind)
      (message : String)
  | zeroDivisor (message : String)
  | overflow (message : String)
  | incompleteExpression
  deriving DecidableEq, Repr, Inhabited

namespace Error

def divisionByZero : Error := zeroDivisor "Division by zero"

def unexpected (source : String) (token : Token) (expected : List Token.Kind) : Error :=
  let complaint := "Unexpected token: '" ++ token.text ++ "'\nIs " ++ token.kind.name ++
    "\tShould be " ++ Token.Kind.alternatives expected
  unexpectedToken token.text token.kind expected (Text.pointAt complaint source token.column)

def message : Error → String
  | malformedNumber message => message
  | characterTooLarge message => message
  | unexpectedToken _ _ _ message => message
  | zeroDivisor message => message
  | overflow message => message
  | incompleteExpression => "expression tree is incomplete"

/-- Whether the error says that the source is no expression; the others arise while an expression
is evaluated. -/
def isSyntactic : Error → Bool
  | malformedNumber _ | characterTooLarge _ | unexpectedToken .. => true
  | zeroDivisor _ | overflow _ | incompleteExpression => false

end Error

theorem eq_ok_of_toOption {ε α : Type} {x : Except ε α} {a : α} (h : x.toOption = some a) :
    x = .ok a := by
  cases x with
  | error => contradiction
  | ok found => exact congrArg Except.ok (Option.some.inj h)

def Error.of? {α : Type} : Except Error α → Option Error
  | .ok _ => none
  | .error error => some error

theorem eq_error_of_of? {α : Type} {x : Except Error α} {error : Error}
    (h : Error.of? x = some error) : x = .error error := by
  cases x with
  | ok => contradiction
  | error found => exact congrArg Except.error (Option.some.inj h)

theorem exists_of_bind_eq_ok {ε α β : Type} {x : Except ε α} {next : α → Except ε β} {b : β}
    (h : (x >>= next) = .ok b) : ∃ a, x = .ok a ∧ next a = .ok b := by
  cases x with
  | error => contradiction
  | ok a => exact ⟨a, rfl, h⟩

end Reckoner

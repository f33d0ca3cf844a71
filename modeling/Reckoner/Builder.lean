import Reckoner.Numeral.Reading
import Reckoner.Scanner
import Reckoner.Tree.Placement

/-! Building an expression tree from tokens in one pass. Parentheses leave no trace but the levels
of the operations: a closing one without an opening one is passed over, missing closing ones are
supplied, and so is a zero for a last operand that is missing. A minus sign before a literal belongs
to it, one before a group multiplies the group by -1. -/
namespace Reckoner

/-- What the next token has to go with. -/
inductive Awaiting where
  | operand
  | signed (negative : Bool)
  | operator (literal : Tree)
  deriving DecidableEq, Repr

structure Builder where
  source : String
  tree : Tree
  awaiting : Awaiting
  depth : UInt32
  made : Nat
  /-- Where the operations after the first one went, the latest first. -/
  placements : List Placement
  deriving DecidableEq, Repr

namespace Builder

def start (source : String) : Builder where
  source := source
  tree := .hole
  awaiting := .operand
  depth := 0
  made := 0
  placements := []

def openGroup (b : Builder) : Builder :=
  { b with depth := b.depth + 1, awaiting := .operand }

def closeGroup (b : Builder) : Builder :=
  { b with depth := if b.depth = 0 then 0 else b.depth - 1 }

def operate (b : Builder) (operator : Operator) (tier : Tier) (operand : Tree) :
    Except Error Builder :=
  let new : Tree.Candidate := ⟨b.made, operator, .of b.depth tier, operand⟩
  let after := { b with made := b.made + 1, awaiting := .operand }
  if b.tree.isHole then .ok { after with tree := new.over operand }
  else match b.tree.insert? new with
    | some (tree, site) =>
      .ok { after with tree, placements := ⟨new.id, new.level, site⟩ :: b.placements }
    | none => .error .incompleteExpression

/-- Makes a leaf, which is not part of the tree yet. -/
def makeLeaf (b : Builder) (number : Number) : Tree × Builder :=
  (.leaf b.made number, { b with made := b.made + 1 })

def literal (b : Builder) (negative : Bool) (token : Token) : Except Error Builder :=
  match Numeral.read? negative token with
  | some number =>
    let (leaf, b) := b.makeLeaf number
    .ok { b with awaiting := .operator leaf }
  | none =>
    let text := if negative then "-" ++ token.text else token.text
    .error (.malformedNumber
      (Text.pointAt ("'" ++ text ++ "' is not a number") b.source token.column))

def negateGroup (b : Builder) : Except Error Builder :=
  let (leaf, b) := b.makeLeaf (.integer (-1))
  b.operate .multiply .exponential leaf

def takeOperand (b : Builder) (token : Token) : Except Error Builder :=
  match token.kind with
  | .openParen => .ok b.openGroup
  | .operator .subtract => .ok { b with awaiting := .signed true }
  | .operator .add => .ok { b with awaiting := .signed false }
  | .integer | .decimal => b.literal false token
  | _ => .error (.unexpected b.source token Token.Kind.operandStart)

def takeSigned (b : Builder) (negative : Bool) (token : Token) : Except Error Builder :=
  match token.kind with
  | .openParen => if negative then b.negateGroup.map openGroup else .ok b.openGroup
  | .integer | .decimal => b.literal negative token
  | _ => .error (.unexpected b.source token Token.Kind.operandStart)

def takeOperator (b : Builder) (operand : Tree) (token : Token) : Except Error Builder :=
  match token.kind with
  | .closeParen => .ok b.closeGroup
  | .operator operator => b.operate operator operator.tier operand
  | _ => .error (.unexpected b.source token Token.Kind.operandEnd)

def take (b : Builder) (token : Token) : Except Error Builder :=
  match b.awaiting with
  | .operand => b.takeOperand token
  | .signed negative => b.takeSigned negative token
  | .operator literal => b.takeOperator literal token

def finish (b : Builder) (token : Token) : Except Error Tree :=
  match b.awaiting with
  | .operand =>
    if b.tree.isHole then .error (.unexpected b.source token Token.Kind.operandStart)
    else .ok ((b.tree.fillSlot? (b.makeLeaf (.integer 0)).1).getD b.tree)
  | .signed _ => .error (.unexpected b.source token Token.Kind.operandStart)
  | .operator literal =>
    if b.tree.isHole then .ok literal
    else match b.tree.fillSlot? literal with
      | some tree => .ok tree
      | none => .error .incompleteExpression

/-- Takes tokens as long as they fit; also answers the builder before the error. -/
def takeAll (b : Builder) : List Token → Except Error Unit × Builder
  | [] => (.ok (), b)
  | token :: rest =>
    match b.take token with
    | .ok b => b.takeAll rest
    | .error error => (.error error, b)

end Builder

structure Parse where
  tree : Except Error Tree
  placements : List Placement

/-- Parses the tokens of a scanner. What stops the scanner counts only if the tokens before it are
in order. -/
def Scanner.parse (s : Scanner) : Parse :=
  let (tokens, last, _) := s.scan
  match (Builder.start s.source).takeAll tokens with
  | (.error error, b) => ⟨.error error, b.placements.reverse⟩
  | (.ok (), b) => ⟨last.bind b.finish, b.placements.reverse⟩

def parse (source : String) (symbols : Numeral.Symbols) : Parse :=
  (Scanner.ofSource source symbols).parse

end Reckoner

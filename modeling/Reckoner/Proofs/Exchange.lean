import Mathlib.Data.Option.Basic
import Reckoner.Proofs.Traversal

/-! Exchanged operands. Main statement: sums and products do not depend on the order of their
operands, neither exactly nor where they are rounded, so that exchanging the operands of any of
them in a tree changes neither its value nor its error. -/
namespace Reckoner

namespace Number
open Float.Model UnpackedFloat

/-- Aligned mantissas are added, whichever of the two comes first. -/
theorem unpacked_add_comm (format : Format) (x y : UnpackedFloat) :
    UnpackedFloat.add format x y = UnpackedFloat.add format y x := by
  cases x with
  | notANumber => cases y <;> rfl
  | infinity s =>
    cases y with
    | infinity t => cases s <;> cases t <;> rfl
    | _ => rfl
  | zero s =>
    cases y with
    | zero t => cases s <;> cases t <;> rfl
    | _ => rfl
  | finite s m e =>
    cases y with
    | finite t n f =>
      change normalize format
        (s.apply (decreaseExponent m e (min e f)).1 + t.apply (decreaseExponent n f (min e f)).1)
        (min e f) .positive = normalize format
        (t.apply (decreaseExponent n f (min f e)).1 + s.apply (decreaseExponent m e (min f e)).1)
        (min f e) .positive
      rw [Int.min_comm f e, Int.add_comm]
    | _ => rfl

theorem sign_mul_comm (s t : Sign) : s * t = t * s := by
  cases s <;> cases t <;> rfl

theorem unpacked_mul_comm (format : Format) (x y : UnpackedFloat) :
    UnpackedFloat.mul format x y = UnpackedFloat.mul format y x := by
  cases x with
  | notANumber => cases y <;> rfl
  | infinity s =>
    cases y with
    | infinity t | finite t => exact congrArg UnpackedFloat.infinity (sign_mul_comm s t)
    | _ => rfl
  | zero s =>
    cases y with
    | zero t | finite t => exact congrArg UnpackedFloat.zero (sign_mul_comm s t)
    | _ => rfl
  | finite s m e =>
    cases y with
    | finite t n f =>
      change roundWithAccuracy format (s * t) (m * n) (e + f) .exact =
        roundWithAccuracy format (t * s) (n * m) (f + e) .exact
      rw [sign_mul_comm s t, Nat.mul_comm m n, Int.add_comm e f]
    | infinity t => exact congrArg UnpackedFloat.infinity (sign_mul_comm s t)
    | zero t => exact congrArg UnpackedFloat.zero (sign_mul_comm s t)
    | notANumber => rfl

theorem float_add_comm (x y : Float) : x + y = y + x :=
  congrArg (fun u => Float.ofModel (pack u)) (unpacked_add_comm _ _ _)

theorem float_mul_comm (x y : Float) : x * y = y * x :=
  congrArg (fun u => Float.ofModel (pack u)) (unpacked_mul_comm _ _ _)

end Number

namespace Fraction
open Word

theorem tdiv_mul_comm {a b g : Int} (ha : g ∣ a) (hb : g ∣ b) : a.tdiv g * b = b.tdiv g * a := by
  obtain ⟨m, rfl⟩ := ha
  obtain ⟨n, rfl⟩ := hb
  by_cases hg : g = 0
  · simp [hg]
  · rw [Int.mul_tdiv_cancel_left m hg, Int.mul_tdiv_cancel_left n hg]
    ring

theorem result_combine_comm {op : Int → Int → Int} (comm : ∀ x y, op x y = op y x)
    (f g : Fraction) : (combine op f g).result = (combine op g f).result := by
  simp only [combine, Worked.result_bind, divisor, part, Worked.result_surely,
    Worked.result_exactly, Option.bind_some]
  rw [Int.gcd_comm f.denominator.toInt,
    tdiv_mul_comm (Int.gcd_dvd_right _ _) (Int.gcd_dvd_left _ _)]
  congr 1
  funext common
  rw [Option.bind_comm]
  simp only [comm]

theorem add?_comm (f g : Fraction) : f.add? g = g.add? f :=
  result_combine_comm Int.add_comm f g

theorem mul?_comm (f g : Fraction) : f.mul? g = g.mul? f := by
  simp only [mul?, product, Worked.result_bind, divisor, part, Worked.result_surely,
    Worked.result_exactly, Option.bind_some]
  rw [Int.gcd_comm f.numerator.toInt, Int.gcd_comm f.denominator.toInt]
  simp only [Int.mul_comm]

end Fraction

namespace Number

theorem viaFractions?_comm {op : Fraction → Fraction → Option Fraction}
    (comm : ∀ f g, op f g = op g f) (a b : Number) :
    viaFractions? op a b = viaFractions? op b a := by
  unfold viaFractions?
  cases a.toFraction? with
  | none => cases b.toFraction? <;> rfl
  | some f =>
    cases b.toFraction? with
    | none => rfl
    | some g =>
      change (op f g).bind _ = (op g f).bind _
      rw [comm f g]

theorem exactWhole?_comm {whole : Int → Int → Int} {op : Fraction → Fraction → Option Fraction}
    (wholeComm : ∀ m n, whole m n = whole n m) (comm : ∀ f g, op f g = op g f) (a b : Number) :
    exactWhole? whole op a b = exactWhole? whole op b a := by
  cases a with
  | integer m =>
    cases b with
    | integer n => simp only [exactWhole?, wholeComm m.toInt]
    | _ => exact viaFractions?_comm comm _ _
  | _ => cases b <;> exact viaFractions?_comm comm _ _

theorem exactSum_comm (a b : Number) :
    exactWhole? (· + ·) Fraction.add? a b = exactWhole? (· + ·) Fraction.add? b a :=
  exactWhole?_comm Int.add_comm Fraction.add?_comm a b

theorem exactProduct_comm (a b : Number) :
    exactWhole? (· * ·) Fraction.mul? a b = exactWhole? (· * ·) Fraction.mul? b a :=
  exactWhole?_comm Int.mul_comm Fraction.mul?_comm a b

theorem add_comm (a b : Number) : a.add b = b.add a := by
  unfold add
  rw [exactSum_comm, float_add_comm]

theorem mul_comm (a b : Number) : a.mul b = b.mul a := by
  unfold mul
  rw [exactProduct_comm, float_mul_comm]

end Number

theorem Operator.apply_comm {operator : Operator} (commutes : operator.commutes = true)
    (a b : Number) : operator.apply a b = operator.apply b a := by
  cases operator with
  | add => exact congrArg Except.ok (a.add_comm b)
  | multiply => exact congrArg Except.ok (a.mul_comm b)
  | _ => contradiction

namespace Tree

/-- The tree with the operands exchanged of all sums and products at the ends of chosen paths. -/
def exchange (chosen : List Side → Bool) : Tree → Tree
  | op id operator level left right =>
    let left := left.exchange fun path => chosen (.left :: path)
    let right := right.exchange fun path => chosen (.right :: path)
    if chosen [] && operator.commutes then op id operator level right left
    else op id operator level left right
  | tree => tree

theorem complete_exchange {tree : Tree} (complete : tree.Complete) (chosen : List Side → Bool) :
    (tree.exchange chosen).Complete := by
  induction tree generalizing chosen with
  | hole | leaf => exact complete
  | op id operator level left right ihl ihr =>
    obtain ⟨hl, hr⟩ := complete_op.mp complete
    unfold exchange
    dsimp only
    split
    · exact complete_op.mpr ⟨ihr hr _, ihl hl _⟩
    · exact complete_op.mpr ⟨ihl hl _, ihr hr _⟩

/-- Where both operands fail, they fail with the same error, so that it does not matter which of
them is met first. -/
theorem value_op_comm {operator : Operator} (commutes : operator.commutes = true) (id : Nat)
    (level : Level) {left right : Tree} (hl : left.Complete) (hr : right.Complete) :
    (op id operator level right left).value = (op id operator level left right).value := by
  unfold value
  cases hlv : left.value with
  | error e =>
    obtain rfl := (dividesByZero_of_value hl hlv).1
    cases hrv : right.value with
    | error e =>
      obtain rfl := (dividesByZero_of_value hr hrv).1
      rfl
    | ok b => rfl
  | ok a =>
    cases right.value with
    | error e => rfl
    | ok b => exact operator.apply_comm commutes b a

theorem value_exchange {tree : Tree} (complete : tree.Complete) (chosen : List Side → Bool) :
    (tree.exchange chosen).value = tree.value := by
  induction tree generalizing chosen with
  | hole | leaf => rfl
  | op id operator level left right ihl ihr =>
    obtain ⟨hl, hr⟩ := complete_op.mp complete
    have kept : (op id operator level (left.exchange fun path => chosen (.left :: path))
        (right.exchange fun path => chosen (.right :: path))).value =
          (op id operator level left right).value := by
      unfold value
      rw [ihl hl, ihr hr]
    unfold exchange
    dsimp only
    split
    next h =>
      have commutes := (Bool.and_eq_true_iff.mp h).2
      rw [value_op_comm commutes id level (complete_exchange hl _) (complete_exchange hr _), kept]
    next => exact kept

end Tree

/-- Sums and products do not depend on the order of the operands, nor does it depend on it whether
they are exact. So the operands of any sums and products of a tree may be exchanged: the outcome of
the evaluation stays the same. This speaks of wrapping arithmetic: zero divided by a fraction whose
numerator is the least word is zero. -/
theorem exchange_preserves_outcome :
    (∀ a b : Number,
      Number.exactWhole? (· + ·) Fraction.add? a b = Number.exactWhole? (· + ·) Fraction.add? b a ∧
      Number.exactWhole? (· * ·) Fraction.mul? a b = Number.exactWhole? (· * ·) Fraction.mul? b a ∧
      a.add b = b.add a ∧ a.mul b = b.mul a) ∧
    ∀ tree : Tree, tree.Complete → ∀ (chosen : List Side → Bool) (session : Session),
      (session.evaluate (tree.exchange chosen)).1 = (session.evaluate tree).1 ∧
      ∀ error, (session.evaluate tree).1 = .error error → error = .divisionByZero := by
  constructor
  · exact fun a b =>
      ⟨a.exactSum_comm b, a.exactProduct_comm b, a.add_comm b, a.mul_comm b⟩
  · intro tree complete chosen session
    simp only [Session.outcome_evaluate, Tree.evaluate_eq_value complete,
      Tree.evaluate_eq_value (Tree.complete_exchange complete chosen)]
    exact ⟨Tree.value_exchange complete chosen,
      fun error h => (Tree.dividesByZero_of_value complete h).1⟩

theorem exchanged_failures :
    let tree : Tree := .op 3 .add 0
      (.op 1 .divide 1 (.leaf 0 (.integer 1)) (.leaf 2 (.integer 0)))
      (.op 5 .multiply 1 (.leaf 4 (.integer 2))
        (.op 7 .divide 4 (.leaf 6 (.integer 3)) (.leaf 8 (.integer 0))))
    let exchanged : Tree := .op 3 .add 0
      (.op 5 .multiply 1
        (.op 7 .divide 4 (.leaf 6 (.integer 3)) (.leaf 8 (.integer 0)))
        (.leaf 4 (.integer 2)))
      (.op 1 .divide 1 (.leaf 0 (.integer 1)) (.leaf 2 (.integer 0)))
    tree.Complete ∧ ((Session.start false).evaluate tree).1 = .error .divisionByZero ∧
      ((Session.start false).evaluate exchanged).1 = ((Session.start false).evaluate tree).1 := by
  intro tree exchanged
  have complete : tree.Complete := ⟨rfl, rfl⟩
  refine ⟨complete, (Tree.evaluate_eq_value complete).trans (by decide +kernel), ?_⟩
  exact (exchange_preserves_outcome.2 tree complete (fun _ => true) (.start false)).1

end Reckoner

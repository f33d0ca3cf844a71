import Reckoner.Proofs.Exact
import Reckoner.Proofs.Spine

/-! The meaning of a tree in ordinary arithmetic. Main statement: neither an exchange of operands nor
the side to which a chain of sums or products leans changes it. -/
namespace Reckoner

/-- The value if there is one, and whether a division by zero occurs on the way. -/
@[ext]
structure Meaning where
  value? : Option ℚ
  dividesByZero : Bool

def Meaning.combine (operator : Operator) (a b : Meaning) : Meaning where
  value? := a.value?.bind fun x => b.value?.bind fun y => operator.value? x y
  dividesByZero := a.dividesByZero || b.dividesByZero ||
    operator = .divide && b.value? = some 0

namespace Meaning

theorem combine_comm {operator : Operator} (h : operator.commutes = true) (a b : Meaning) :
    a.combine operator b = b.combine operator a := by
  have hd : operator ≠ .divide := by
    rintro rfl
    contradiction
  have hx : ∀ x y, operator.value? x y = operator.value? y x := by
    intro x y
    cases operator with
    | add => exact congrArg some (add_comm x y)
    | multiply => exact congrArg some (mul_comm x y)
    | subtract | divide | power => contradiction
  ext1
  · cases ha : a.value? <;> cases hb : b.value? <;> simp [combine, ha, hb, hx]
  · simp [combine, hd, Bool.or_comm]

/-- In a chain of one tier it does not matter where an addition or a multiplication stands. -/
theorem combine_assoc {first second : Operator} (hc : first.commutes = true)
    (tier : first.tier = second.tier) (a b c : Meaning) :
    a.combine first (b.combine second c) = (a.combine first b).combine second c := by
  have hd : first ≠ .divide := by
    rintro rfl
    contradiction
  have hx : ∀ x y z, (second.value? y z).bind (first.value? x) =
      (first.value? x y).bind fun w => second.value? w z := by
    intro x y z
    cases first <;> cases second <;> simp_all [Operator.tier, Operator.commutes, Operator.value?]
    · exact (add_assoc x y z).symm
    · exact (add_sub_assoc x y z).symm
    · exact (mul_assoc x y z).symm
    · by_cases hz : z = 0
      · simp [hz]
      · simp [hz, mul_div_assoc, Operator.value?]
  ext1
  · cases ha : a.value? <;> cases hb : b.value? <;> cases hv : c.value? <;>
      simp [combine, ha, hb, hv, hx]
  · simp [combine, hd, Bool.or_assoc]

end Meaning

namespace Tree

def meaning : Tree → Meaning
  | hole => ⟨none, false⟩
  | leaf _ n => ⟨n.rational?, false⟩
  | op _ operator _ left right => left.meaning.combine operator right.meaning

def numbers : Tree → List Number
  | hole => []
  | leaf _ n => [n]
  | op _ _ _ left right => left.numbers ++ right.numbers

end Tree

theorem meaning_close (f : Frame) (right : Tree) :
    (f.close right).meaning = f.left.meaning.combine f.operator right.meaning := rfl

theorem meaning_take (f : Frame) (level : Level) (operand : Tree) :
    (f.take level operand).meaning = (f.close operand).meaning := by
  rw [Frame.take]
  split
  next h =>
    simp only [Bool.and_eq_true] at h
    exact Meaning.combine_comm h.1.2 _ _
  · rfl

theorem meaning_settle (level : Level) (operand : Tree) (frames : List Frame) :
    (settle level operand frames).meaning = (assemble frames operand).meaning := by
  induction frames with
  | nil => rfl
  | cons f frames ih =>
    cases frames with
    | nil => exact meaning_take f level operand
    | cons g frames =>
      rw [settle_cons_cons, meaning_close, ih, assemble_cons f, meaning_close]

theorem mem_numbers_settle {level : Level} {operand : Tree} {frames : List Frame} {n : Number} :
    n ∈ (settle level operand frames).numbers ↔ n ∈ (assemble frames operand).numbers := by
  induction frames with
  | nil => exact Iff.rfl
  | cons f frames ih =>
    cases frames with
    | nil =>
      rw [settle, Frame.take]
      split
      · simp [Frame.close, Tree.numbers, or_comm]
      · rfl
    | cons g frames =>
      rw [settle_cons_cons, assemble_cons f, Frame.close, Frame.close, Tree.numbers, Tree.numbers,
        List.mem_append, List.mem_append, ih]

/-- Additions or multiplications that lean right may as well lean left. -/
theorem meaning_assemble_chain {frames : List Frame} {tier : Tier}
    (chain : ∀ f ∈ frames, f.operator.commutes = true ∧ f.operator.tier = tier) {operator : Operator}
    (ht : operator.tier = tier) (id : Nat) (level : Level) (left right : Tree) :
    (assemble frames (.op id operator level left right)).meaning =
      (assemble frames left).meaning.combine operator right.meaning := by
  induction frames with
  | nil => rfl
  | cons f frames ih =>
    obtain ⟨hc, hft⟩ := chain f (by simp)
    rw [assemble_cons, assemble_cons, meaning_close, meaning_close,
      ih fun g hg => chain g (by simp [hg]), Meaning.combine_assoc hc (hft.trans ht.symm)]

end Reckoner

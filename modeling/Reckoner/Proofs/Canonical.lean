import Reckoner.Proofs.Exact

/-! Canonical form. Main statement: what the four operations of arithmetic make of exact numbers is,
unless it is a float, the exact result in its one form, and only zero is no divisor. -/
namespace Reckoner

namespace Fraction

theorem den_rational {f : Fraction} (hf : f.WellFormed) :
    (f.rational.den : Int) = f.denominator.toInt :=
  Rat.den_div_eq_of_coprime hf.1 hf.2

theorem isWhole_iff {f : Fraction} : f.isWhole = true ↔ f.denominator.toInt = 1 := by
  unfold isWhole
  rw [decide_eq_true_iff, ← Int64.toInt_inj]
  rfl

theorem isWhole_eq_false_iff {f : Fraction} (hf : f.WellFormed) :
    f.isWhole = false ↔ 2 ≤ f.denominator.toInt := by
  have hpos := hf.1
  rw [← Bool.not_eq_true, isWhole_iff]
  omega

end Fraction

namespace Number

/-- The number is exactly this one, and in its one form: an integer if it is whole, otherwise a
fraction in lowest terms with a denominator of at least two. -/
def Canonical (a : Number) (x : ℚ) : Prop :=
  if x.den = 1 then ∃ n, a = integer n ∧ (n.toInt : ℚ) = x
  else ∃ f, a = fraction f ∧ f.WellFormed ∧ 2 ≤ f.denominator.toInt ∧ f.rational = x

/-- No fraction, or one that is not whole. -/
def Collapsed : Number → Prop
  | fraction f => f.isWhole = false
  | _ => True

theorem canonical_of_holds {a : Number} {x : ℚ} (h : a.Holds x) (collapsed : a.Collapsed) :
    a.Canonical x := by
  cases a with
  | integer n =>
    obtain rfl : (n.toInt : ℚ) = x := h
    rw [Canonical, if_pos (Rat.den_intCast n.toInt)]
    exact ⟨n, rfl, rfl⟩
  | float => exact h.elim
  | fraction f =>
    have hlow := (Fraction.isWhole_eq_false_iff h.1).mp collapsed
    have hden := Fraction.den_rational h.1
    rw [Canonical, ← h.2, if_neg (by omega)]
    exact ⟨f, rfl, h.1, hlow, rfl⟩

theorem collapsed_ofFraction (f : Fraction) : (ofFraction f).Collapsed := by
  unfold ofFraction
  split
  · trivial
  next h => exact Bool.eq_false_of_not_eq_true h

section Operations
variable {op : Fraction → Fraction → Option Fraction} {a b r : Number}

theorem collapsed_viaFractions (h : viaFractions? op a b = some r) : r.Collapsed := by
  obtain ⟨f, -, h⟩ := Option.bind_eq_some_iff.mp h
  obtain ⟨g, -, h⟩ := Option.bind_eq_some_iff.mp h
  obtain ⟨q, -, h⟩ := Option.bind_eq_some_iff.mp h
  rw [← Option.some.inj h]
  exact collapsed_ofFraction q

theorem collapsed_exactWhole {whole : Int → Int → Int} (h : exactWhole? whole op a b = some r) :
    r.Collapsed := by
  unfold exactWhole? at h
  split at h
  next m n =>
    obtain ⟨k, -, rfl⟩ := Option.map_eq_some_iff.mp h
    trivial
  · exact collapsed_viaFractions h

theorem collapsed_getD {found : Option Number} (h : ∀ r, found = some r → r.Collapsed)
    (x : Float) : (found.getD (float x)).Collapsed := by
  cases found with
  | none => trivial
  | some r => exact h r rfl

theorem pow_ne_fraction (a b : Number) (f : Fraction) : a.pow b ≠ fraction f := by
  unfold pow
  split
  · simp
  split
  · split
    · simp
    split <;> simp
  · simp

theorem collapsed_pow (a b : Number) : (a.pow b).Collapsed := by
  cases h : a.pow b with
  | integer | float => trivial
  | fraction f => exact absurd h (pow_ne_fraction a b f)

end Operations
end Number

namespace Operator
variable {operator : Operator} {a b r : Number}

theorem collapsed_apply (h : operator.apply a b = .ok r) : r.Collapsed := by
  cases operator with
  | add | subtract | multiply =>
    rw [← Except.ok.inj h]
    exact Number.collapsed_getD (fun _ => Number.collapsed_exactWhole) _
  | divide =>
    rw [apply, Number.div] at h
    split at h
    · contradiction
    · rw [← Except.ok.inj h]
      exact Number.collapsed_getD (fun _ => Number.collapsed_viaFractions) _
  | power =>
    rw [← Except.ok.inj h]
    exact Number.collapsed_pow a b

theorem canonical_apply (operator : Operator) {x y z : ℚ} (ha : a.Holds x) (hb : b.Holds y)
    (value : operator.value? x y = some z) (h : operator.apply a b = .ok r)
    (held : r.isFloat = false) : r.Canonical z := by
  obtain ⟨w, hw, holds⟩ := holds_apply ha hb h held
  rw [value] at hw
  rw [Option.some.inj hw]
  exact Number.canonical_of_holds holds (collapsed_apply h)

end Operator

namespace Number
variable {a b : Number} {x y : ℚ}

theorem div_eq_error_iff (hb : b.Holds y) {error : Error} :
    a.div b = .error error ↔ y = 0 ∧ error = .divisionByZero := by
  constructor
  · intro h
    have failed : Operator.divide.apply a b = .error error := h
    exact (Operator.apply_error hb failed).2
  · rintro ⟨hy, rfl⟩
    rw [div, if_pos ((isZero_iff hb).mpr hy)]

end Number

/-- Sums, differences, products and quotients of exact numbers are exact and in canonical form
unless they are floats. A division fails exactly if the divisor is zero. -/
theorem canonical_arithmetic {a b : Number} {x y : ℚ} (ha : a.Holds x) (hb : b.Holds y) :
    ((a.add b).isFloat = false → (a.add b).Canonical (x + y)) ∧
    ((a.sub b).isFloat = false → (a.sub b).Canonical (x - y)) ∧
    ((a.mul b).isFloat = false → (a.mul b).Canonical (x * y)) ∧
    (∀ r, a.div b = .ok r → r.isFloat = false → r.Canonical (x / y)) ∧
    (a.div b = .error .divisionByZero ↔ y = 0) ∧
    ∀ error, a.div b = .error error → error = .divisionByZero := by
  refine ⟨Operator.add.canonical_apply ha hb rfl rfl,
    Operator.subtract.canonical_apply ha hb rfl rfl,
    Operator.multiply.canonical_apply ha hb rfl rfl, ?_, ?_, ?_⟩
  · intro r h held
    have hy : y ≠ 0 := by
      intro hy
      rw [(Number.div_eq_error_iff hb).mpr ⟨hy, rfl⟩] at h
      contradiction
    exact Operator.divide.canonical_apply ha hb (if_neg hy) h held
  · rw [Number.div_eq_error_iff hb]
    exact and_iff_left rfl
  · intro error h
    exact ((Number.div_eq_error_iff hb).mp h).2

theorem canonical_at_least_third :
    let a : Number := .fraction ⟨Int64.minValue, 3⟩
    let b : Number := .fraction ⟨1, 3⟩
    a.Holds (-9223372036854775808 / 3) ∧ b.Holds (1 / 3) ∧
      (a.add b).Canonical (-9223372036854775808 / 3 + 1 / 3) ∧
      (a.mul b).Canonical (-9223372036854775808 / 3 * (1 / 3)) ∧
      a.div b = .ok (.integer Int64.minValue) ∧
      Number.Canonical (.integer Int64.minValue) (-9223372036854775808 / 3 / (1 / 3)) := by
  intro a b
  have ha : a.Holds (-9223372036854775808 / 3) := ⟨by decide, by decide +kernel⟩
  have hb : b.Holds (1 / 3) := ⟨by decide, by decide +kernel⟩
  have hdiv : a.div b = .ok (.integer Int64.minValue) := eq_ok_of_toOption (by decide +kernel)
  obtain ⟨sum, -, product, quotient, -⟩ := canonical_arithmetic ha hb
  exact ⟨ha, hb, sum (by decide +kernel), product (by decide +kernel), hdiv, quotient _ hdiv rfl⟩

end Reckoner

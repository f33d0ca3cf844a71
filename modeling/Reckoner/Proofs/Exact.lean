import Reckoner.Number.Arithmetic
import Reckoner.Proofs.Representable

/-! Exact arithmetic. Main statement: an operation on exact numbers whose result is no float has the
result that the rational numbers have, and fractions stay in lowest terms. -/
namespace Reckoner

/-- The value of the operation in ordinary arithmetic, with the conventions that anything to the
power of zero is 1, and so is an integer to a negative integer. -/
def Operator.value? : Operator → ℚ → ℚ → Option ℚ
  | add, a, b => some (a + b)
  | subtract, a, b => some (a - b)
  | multiply, a, b => some (a * b)
  | divide, a, b => if b = 0 then none else some (a / b)
  | power, a, b =>
    if b = 0 then some 1
    else if b.den ≠ 1 then none
    else if a.den = 1 ∧ b < 0 then some 1
    else some (a ^ b.num)

namespace Word

theorem square_pow_half (base : Int) (exponent : Nat) :
    (base * base) ^ (exponent / 2) = base ^ (2 * (exponent / 2)) := by
  rw [pow_mul, pow_two]

theorem eq_pow_of_power? {base power : Int} {exponent : Nat}
    (h : power? base exponent = some power) : power = base ^ exponent := by
  induction base, exponent using power?.induct generalizing power with
  | case1 base =>
    rw [power?, if_pos rfl] at h
    rw [← Option.some.inj h, pow_zero]
  | case2 base hne =>
    rw [power?, if_neg hne, if_pos rfl] at h
    rw [← Option.some.inj h, pow_one]
  | case3 base exponent h0 h1 ih =>
    rw [power?, if_neg h0, if_neg h1] at h
    obtain ⟨square, hs, hsquare⟩ := Option.bind_eq_some_iff.mp h
    obtain ⟨half, hp, hhalf⟩ := Option.bind_eq_some_iff.mp hsquare
    obtain ⟨-, rfl⟩ := exactly?_eq_some_iff.mp hs
    have heven : half = base ^ (2 * (exponent / 2)) := (ih _ hp).trans (square_pow_half _ _)
    by_cases hparity : exponent % 2 = 0
    · rw [if_pos hparity] at hhalf
      rw [← Option.some.inj hhalf, heven]
      congr 1
      omega
    · rw [if_neg hparity] at hhalf
      obtain ⟨-, rfl⟩ := exactly?_eq_some_iff.mp hhalf
      rw [heven, ← pow_succ']
      congr 1
      omega

end Word

namespace Fraction
open Word

section Operations
variable {f g r : Fraction} (hf : f.WellFormed) (hg : g.WellFormed)
include hf hg

theorem add?_exact (h : f.add? g = some r) :
    r.WellFormed ∧ r.rational = f.rational + g.rational := by
  rw [add?_eq hf hg] at h
  split at h
  · exact ofRational?_eq_some_iff.mp h
  · contradiction

theorem sub?_exact (h : f.sub? g = some r) :
    r.WellFormed ∧ r.rational = f.rational - g.rational := by
  rw [sub?_eq hf hg] at h
  split at h
  · exact ofRational?_eq_some_iff.mp h
  · contradiction

theorem mul?_exact (h : f.mul? g = some r) :
    r.WellFormed ∧ r.rational = f.rational * g.rational :=
  ofRational?_eq_some_iff.mp ((mul?_eq hf hg).symm.trans h)

theorem div?_exact (hzero : g.numerator.toInt ≠ 0) (h : f.div? g = some r) :
    r.WellFormed ∧ r.rational = f.rational / g.rational := by
  rw [div?_eq hf hg hzero] at h
  split at h
  · contradiction
  · exact ofRational?_eq_some_iff.mp h

end Operations
end Fraction

namespace Number

/-- The value of an exact number. -/
def rational? : Number → Option ℚ
  | integer n => some n.toInt
  | float _ => none
  | fraction f => some f.rational

def isFloat : Number → Bool
  | float _ => true
  | _ => false

/-- The number is exactly this one, and in lowest terms if it is a fraction. -/
def Holds : Number → ℚ → Prop
  | integer n, x => (n.toInt : ℚ) = x
  | float _, _ => False
  | fraction f, x => f.WellFormed ∧ f.rational = x

theorem Holds.rational?_eq {a : Number} {x : ℚ} (h : a.Holds x) : a.rational? = some x := by
  cases a with
  | integer n => exact congrArg some h
  | float => exact h.elim
  | fraction f => exact congrArg some h.2

theorem Holds.exists_fraction {a : Number} {x : ℚ} (h : a.Holds x) :
    ∃ f, a.toFraction? = some f ∧ f.WellFormed ∧ f.rational = x := by
  cases a with
  | integer n => exact ⟨_, rfl, Fraction.wellFormed_ofInt64 n, (Fraction.rational_ofInt64 n).trans h⟩
  | float => exact h.elim
  | fraction f => exact ⟨f, rfl, h⟩

theorem holds_ofFraction {f : Fraction} (h : f.WellFormed) : (ofFraction f).Holds f.rational := by
  rw [ofFraction]
  split
  next hw =>
    simp only [Fraction.isWhole, decide_eq_true_eq] at hw
    simp [Holds, Fraction.rational, hw]
  · exact ⟨h, rfl⟩

theorem isZero_iff {a : Number} {x : ℚ} (h : a.Holds x) : a.isZero = true ↔ x = 0 := by
  have zero_iff : ∀ n : Int64, n = 0 ↔ n.toInt = 0 := fun n => by
    rw [← Int64.toInt_inj]
    rfl
  cases a with
  | integer n =>
    obtain rfl : (n.toInt : ℚ) = x := h
    simp [isZero, zero_iff]
  | float => exact h.elim
  | fraction f =>
    have hd : (f.denominator.toInt : ℚ) ≠ 0 := by exact_mod_cast h.1.1.ne'
    simp [isZero, Fraction.isZero, ← h.2, Fraction.rational, zero_iff, hd]

section Operations
variable {a b r : Number} {x y : ℚ} (ha : a.Holds x) (hb : b.Holds y)
include ha hb

theorem holds_viaFractions {op : Fraction → Fraction → Option Fraction} {z : ℚ}
    (exact : ∀ f g r : Fraction, f.WellFormed → g.WellFormed → f.rational = x → g.rational = y →
      op f g = some r → r.WellFormed ∧ r.rational = z)
    (h : viaFractions? op a b = some r) : r.Holds z := by
  obtain ⟨f, hf, wf, hx⟩ := ha.exists_fraction
  obtain ⟨g, hg, wg, hy⟩ := hb.exists_fraction
  rw [viaFractions?, hf, hg] at h
  change (op f g).bind (fun q => some (ofFraction q)) = some r at h
  obtain ⟨q, hq, h₁⟩ := Option.bind_eq_some_iff.mp h
  obtain rfl := Option.some.inj h₁
  obtain ⟨wq, rfl⟩ := exact f g q wf wg hx hy hq
  exact holds_ofFraction wq

theorem holds_exactWhole {whole : Int → Int → Int} {op : Fraction → Fraction → Option Fraction}
    {value : ℚ → ℚ → ℚ} (cast : ∀ m n : Int, ((whole m n : Int) : ℚ) = value m n)
    (exact : ∀ f g r : Fraction, f.WellFormed → g.WellFormed → op f g = some r →
      r.WellFormed ∧ r.rational = value f.rational g.rational)
    (h : exactWhole? whole op a b = some r) : r.Holds (value x y) := by
  unfold exactWhole? at h
  split at h
  next m n =>
    obtain ⟨k, hk, rfl⟩ := Option.map_eq_some_iff.mp h
    obtain rfl : (m.toInt : ℚ) = x := ha
    obtain rfl : (n.toInt : ℚ) = y := hb
    rw [Holds, Word.ofInt?_eq_some_iff.mp hk, cast]
  · refine holds_viaFractions ha hb (fun f g r wf wg hx hy hq => ?_) h
    rw [← hx, ← hy]
    exact exact f g r wf wg hq

omit ha hb in
theorem eq_some_of_getD {found : Option Number} {x : Float}
    (hr : (found.getD (float x)).isFloat = false) : found = some (found.getD (float x)) := by
  cases found with
  | some n => rfl
  | none => contradiction

theorem holds_pow (hr : (a.pow b).isFloat = false) :
    ∃ z, Operator.power.value? x y = some z ∧ (a.pow b).Holds z := by
  have hzero := isZero_iff hb
  unfold pow at hr ⊢
  split
  next hz => exact ⟨1, by simp [Operator.value?, hzero.mp hz], by simp [Holds]⟩
  next hz =>
    rw [if_neg hz] at hr
    have hy : y ≠ 0 := fun h => hz (hzero.mpr h)
    split at hr
    case h_2 => contradiction
    next m n =>
      obtain rfl : (m.toInt : ℚ) = x := ha
      obtain rfl : (n.toInt : ℚ) = y := hb
      have lt_iff : n < 0 ↔ n.toInt < 0 := by
        rw [Int64.lt_iff_toInt_lt]
        rfl
      simp only [Operator.value?, hy, if_false, Rat.den_intCast, Rat.num_intCast, ne_eq,
        not_true, true_and, Int.cast_lt_zero]
      by_cases hneg : n < 0
      · have hlt : n.toInt < 0 := lt_iff.mp hneg
        rw [if_pos hneg, if_pos hlt]
        exact ⟨1, rfl, by simp [Holds]⟩
      · have hle : 0 ≤ n.toInt := Int.not_lt.mp fun h => hneg (lt_iff.mpr h)
        rw [if_neg hneg] at hr ⊢
        rw [if_neg hle.not_gt]
        refine ⟨_, rfl, ?_⟩
        split
        next power hp =>
          obtain ⟨p, hpow, hw⟩ := Option.bind_eq_some_iff.mp hp
          rw [Holds, Word.ofInt?_eq_some_iff.mp hw, Word.eq_pow_of_power? hpow, Int.cast_pow,
            ← zpow_natCast, Int.toNat_of_nonneg hle]
        next hnone =>
          rw [hnone] at hr
          contradiction

end Operations
end Number

theorem Operator.holds_apply {operator : Operator} {a b r : Number} {x y : ℚ} (ha : a.Holds x)
    (hb : b.Holds y) (h : operator.apply a b = .ok r) (hr : r.isFloat = false) :
    ∃ z, operator.value? x y = some z ∧ r.Holds z := by
  cases operator with
  | add =>
    obtain rfl := Except.ok.inj h
    exact ⟨x + y, rfl, Number.holds_exactWhole ha hb Int.cast_add
      (fun _ _ _ wf wg => Fraction.add?_exact wf wg) (Number.eq_some_of_getD hr)⟩
  | subtract =>
    obtain rfl := Except.ok.inj h
    exact ⟨x - y, rfl, Number.holds_exactWhole ha hb Int.cast_sub
      (fun _ _ _ wf wg => Fraction.sub?_exact wf wg) (Number.eq_some_of_getD hr)⟩
  | multiply =>
    obtain rfl := Except.ok.inj h
    exact ⟨x * y, rfl, Number.holds_exactWhole ha hb Int.cast_mul
      (fun _ _ _ wf wg => Fraction.mul?_exact wf wg) (Number.eq_some_of_getD hr)⟩
  | divide =>
    rw [apply, Number.div] at h
    split at h
    · contradiction
    next hz =>
      obtain rfl := Except.ok.inj h
      have hy : y ≠ 0 := fun h0 => hz ((Number.isZero_iff hb).mpr h0)
      refine ⟨x / y, if_neg hy, Number.holds_viaFractions ha hb ?_ (Number.eq_some_of_getD hr)⟩
      intro f g r wf wg hx hgy hq
      have hnum : g.numerator.toInt ≠ 0 := by
        intro h0
        exact hy (by rw [← hgy, Fraction.rational, h0, Int.cast_zero, zero_div])
      rw [← hx, ← hgy]
      exact Fraction.div?_exact wf wg hnum hq
  | power =>
    obtain rfl := Except.ok.inj h
    exact Number.holds_pow ha hb hr

theorem Operator.apply_error {operator : Operator} {a b : Number} {y : ℚ} (hb : b.Holds y)
    {error : Error} (h : operator.apply a b = .error error) :
    operator = .divide ∧ y = 0 ∧ error = .divisionByZero := by
  cases operator with
  | divide =>
    rw [apply, Number.div] at h
    split at h
    next hz => exact ⟨rfl, (Number.isZero_iff hb).mp hz, (Except.error.inj h).symm⟩
    next hz => contradiction
  | _ => contradiction

end Reckoner

import Reckoner.Proofs.Canonical
import Reckoner.Proofs.LowestTerms

/-! Where exact operands give a float. Main statements: a product is a float exactly if it cannot be
held, and a quotient of integers exactly if no fraction can be made of them; sums, differences and
quotients of fractions are floats as soon as something formed on the way cannot be held. -/
namespace Reckoner

namespace Fraction
open Word

theorem combinable_ofInt64_iff {op : Int → Int → Int} {m n : Int64} :
    Combinable op (ofInt64 m) (ofInt64 n) ↔ Fits (op m.toInt n.toInt) := by
  have parts : ∀ k : Int64, (ofInt64 k).numeratorOver 1 = k.toInt := fun k => by
    simp [numeratorOver, ofInt64]
  have common : commonDenominator (ofInt64 m) (ofInt64 n) = 1 := by
    simp [commonDenominator, ofInt64]
  have one : Fits 1 := by decide
  simp only [Combinable, common, parts, one, fits_toInt, true_and]

theorem add?_ofInt64_eq_none_iff (m n : Int64) :
    (ofInt64 m).add? (ofInt64 n) = none ↔ ¬ Fits (m.toInt + n.toInt) :=
  (result_combine_eq_none_iff (wellFormed_ofInt64 m) (wellFormed_ofInt64 n) (· + ·)).trans
    combinable_ofInt64_iff.not

theorem sub?_ofInt64_eq_none_iff (m n : Int64) :
    (ofInt64 m).sub? (ofInt64 n) = none ↔ ¬ Fits (m.toInt - n.toInt) :=
  (result_combine_eq_none_iff (wellFormed_ofInt64 m) (wellFormed_ofInt64 n) (· - ·)).trans
    combinable_ofInt64_iff.not

theorem mul?_ofInt64_eq_none_iff (m n : Int64) :
    (ofInt64 m).mul? (ofInt64 n) = none ↔ ¬ Fits (m.toInt * n.toInt) := by
  rw [mul?_eq (wellFormed_ofInt64 m) (wellFormed_ofInt64 n), rational_ofInt64, rational_ofInt64,
    ← Int.cast_mul, ofRational?_eq_none_iff, representable_intCast_iff]

theorem div?_eq_none_iff {f g : Fraction} (hf : f.WellFormed) (hg : g.WellFormed)
    (hzero : g.numerator.toInt ≠ 0) :
    f.div? g = none ↔ ¬ Representable (f.rational / g.rational) ∨ LeastTurned f g := by
  rw [div?_eq hf hg hzero, ← ofRational?_eq_none_iff]
  by_cases h : LeastTurned f g <;> simp [h]

theorem div?_ofInt64 (m : Int64) {n : Int64} (hn : n.toInt ≠ 0) :
    (ofInt64 m).div? (ofInt64 n) = ofRational? (m.toInt / n.toInt) := by
  rw [div?_eq (wellFormed_ofInt64 m) (wellFormed_ofInt64 n) hn, if_neg fun h => h.2.2.1 rfl,
    rational_ofInt64, rational_ofInt64]

end Fraction

namespace Number

theorem isFloat_ofFraction (f : Fraction) : (ofFraction f).isFloat = false := by
  unfold ofFraction
  split <;> rfl

theorem holds_of_toFraction? {a : Number} {f : Fraction} (hf : f.WellFormed)
    (ha : a.toFraction? = some f) : a.Holds f.rational := by
  cases a with
  | integer n =>
    obtain rfl := Option.some.inj ha
    exact (Fraction.rational_ofInt64 n).symm
  | float => contradiction
  | fraction g =>
    obtain rfl := Option.some.inj ha
    exact ⟨hf, rfl⟩

section Operands
variable {op : Fraction → Fraction → Option Fraction} {a b : Number} {f g : Fraction}
  (ha : a.toFraction? = some f) (hb : b.toFraction? = some g) (x : Float)
include ha hb

theorem viaFractions?_eq : viaFractions? op a b = (op f g).map ofFraction := by
  rw [viaFractions?, ha, hb]
  change (op f g).bind (fun q => some (ofFraction q)) = _
  cases op f g <;> rfl

theorem isFloat_viaFractions_iff :
    ((viaFractions? op a b).getD (float x)).isFloat = true ↔ op f g = none := by
  rw [viaFractions?_eq ha hb]
  cases op f g with
  | none => exact ⟨fun _ => rfl, fun _ => rfl⟩
  | some q => simp [isFloat_ofFraction]

/-- Taking integers through fractions would make no difference. -/
theorem isFloat_exactWhole_iff {whole : Int → Int → Int}
    (agrees : ∀ m n : Int64, op (.ofInt64 m) (.ofInt64 n) = none ↔
      ¬ Word.Fits (whole m.toInt n.toInt)) :
    ((exactWhole? whole op a b).getD (float x)).isFloat = true ↔ op f g = none := by
  unfold exactWhole?
  split
  next m n =>
    obtain rfl := Option.some.inj ha
    obtain rfl := Option.some.inj hb
    rw [agrees, ← Word.ofInt?_eq_none_iff]
    cases Word.ofInt? (whole m.toInt n.toInt) with
    | none => exact ⟨fun _ => rfl, fun _ => rfl⟩
    | some k => simp [isFloat]
  · exact isFloat_viaFractions_iff ha hb x

variable (hf : f.WellFormed) (hg : g.WellFormed)
include hf hg

theorem isFloat_add_iff : (a.add b).isFloat = true ↔ ¬ Fraction.Combinable (· + ·) f g :=
  (isFloat_exactWhole_iff ha hb _ Fraction.add?_ofInt64_eq_none_iff).trans
    (Fraction.result_combine_eq_none_iff hf hg _)

theorem isFloat_sub_iff : (a.sub b).isFloat = true ↔ ¬ Fraction.Combinable (· - ·) f g :=
  (isFloat_exactWhole_iff ha hb _ Fraction.sub?_ofInt64_eq_none_iff).trans
    (Fraction.result_combine_eq_none_iff hf hg _)

theorem isFloat_mul_iff : (a.mul b).isFloat = true ↔ ¬ Representable (f.rational * g.rational) := by
  rw [← Fraction.ofRational?_eq_none_iff, ← Fraction.mul?_eq hf hg]
  exact isFloat_exactWhole_iff ha hb _ Fraction.mul?_ofInt64_eq_none_iff

omit ha hf in
theorem div_eq_ok (hzero : g.rational ≠ 0) :
    a.div b = .ok ((viaFractions? Fraction.div? a b).getD (float (a.toFloat / b.toFloat))) := by
  rw [div, if_neg fun h => hzero ((isZero_iff (holds_of_toFraction? hg hb)).mp h)]

theorem isFloat_div_iff (hzero : g.rational ≠ 0) :
    ∃ r, a.div b = .ok r ∧ (r.isFloat = true ↔
      ¬ Representable (f.rational / g.rational) ∨ Fraction.LeastTurned f g) := by
  refine ⟨_, div_eq_ok hb hg hzero, ?_⟩
  rw [isFloat_viaFractions_iff ha hb]
  exact Fraction.div?_eq_none_iff hf hg (mt (Fraction.rational_eq_zero_iff hg).mpr hzero)

end Operands
end Number

/-- Sums and differences of exact numbers are floats exactly if they cannot be formed over the least
common denominator, quotients exactly if they cannot be held or are the least word with the wrong
sign at first. What is no float is exact. -/
theorem float_iff_lost_on_the_way {a b : Number} {f g : Fraction} (hf : f.WellFormed)
    (hg : g.WellFormed) (ha : a.toFraction? = some f) (hb : b.toFraction? = some g) :
    ((a.add b).isFloat = true ↔ ¬ Fraction.Combinable (· + ·) f g) ∧
    ((a.add b).isFloat = false → (a.add b).Canonical (f.rational + g.rational)) ∧
    ((a.sub b).isFloat = true ↔ ¬ Fraction.Combinable (· - ·) f g) ∧
    ((a.sub b).isFloat = false → (a.sub b).Canonical (f.rational - g.rational)) ∧
    (g.rational ≠ 0 → ∃ r, a.div b = .ok r ∧
      (r.isFloat = true ↔
        ¬ Representable (f.rational / g.rational) ∨ Fraction.LeastTurned f g) ∧
      (r.isFloat = false → r.Canonical (f.rational / g.rational))) := by
  have holds := Number.holds_of_toFraction? hf ha
  have holds' := Number.holds_of_toFraction? hg hb
  refine ⟨Number.isFloat_add_iff ha hb hf hg, Operator.add.canonical_apply holds holds' rfl rfl,
    Number.isFloat_sub_iff ha hb hf hg, Operator.subtract.canonical_apply holds holds' rfl rfl, ?_⟩
  intro hzero
  obtain ⟨r, hr, float_iff⟩ := Number.isFloat_div_iff ha hb hf hg hzero
  exact ⟨r, hr, float_iff, Operator.divide.canonical_apply holds holds' (if_neg hzero) hr⟩

theorem exact_near_the_limits :
    let f : Fraction := ⟨Int64.minValue, 3⟩
    let g : Fraction := ⟨Int64.maxValue, 3⟩
    let a : Number := .fraction f
    let b : Number := .fraction g
    f.WellFormed ∧ g.WellFormed ∧ g.rational ≠ 0 ∧
      (a.add b).Canonical (f.rational + g.rational) ∧ (a.sub b).isFloat = true ∧
      ∃ r, a.div b = .ok r ∧ r.Canonical (f.rational / g.rational) := by
  intro f g a b
  have hf : f.WellFormed := by decide
  have hg : g.WellFormed := by decide
  have hzero : g.rational ≠ 0 := by decide +kernel
  obtain ⟨-, sum, difference, -, quotient⟩ := float_iff_lost_on_the_way hf hg
    (a := a) (b := b) rfl rfl
  obtain ⟨r, hr, float_iff, exact⟩ := quotient hzero
  refine ⟨hf, hg, hzero, sum (by decide +kernel), difference.mpr (by decide +kernel), r, hr,
    exact ?_⟩
  rw [← Bool.not_eq_true, float_iff]
  decide +kernel

/-- The sum of `m / 2` and itself is the integer `m`, but twice `m` is formed first. The least word
is a quotient whose numerator is formed without its sign first. -/
theorem float_though_representable :
    let half : Number := .fraction ⟨Int64.maxValue, 2⟩
    let negated : Number := .fraction ⟨-Int64.maxValue, 2⟩
    let dividend : Number := .integer 4611686018427387904
    let divisor : Number := .fraction ⟨-1, 2⟩
    half.Holds (9223372036854775807 / 2) ∧ negated.Holds (-9223372036854775807 / 2) ∧
      dividend.Holds 4611686018427387904 ∧ divisor.Holds (-1 / 2) ∧
      (half.add half).isFloat = true ∧
      Representable (9223372036854775807 / 2 + 9223372036854775807 / 2) ∧
      (half.sub negated).isFloat = true ∧
      Representable (9223372036854775807 / 2 - -9223372036854775807 / 2) ∧
      (∃ r, dividend.div divisor = .ok r ∧ r.isFloat = true) ∧
      Representable (4611686018427387904 / (-1 / 2)) := by
  intro half negated dividend divisor
  have hdividend : ((4611686018427387904 : Int64).toInt : ℚ) = 4611686018427387904 := by
    decide +kernel
  refine ⟨⟨by decide, by decide +kernel⟩, ⟨by decide, by decide +kernel⟩, hdividend,
    ⟨by decide, by decide +kernel⟩, by decide +kernel, by decide +kernel, by decide +kernel,
    by decide +kernel, ⟨_, rfl, by decide +kernel⟩, by decide +kernel⟩

/-- A product of exact numbers is a float exactly if it cannot be held, and is exact otherwise. -/
theorem product_exact_iff {a b : Number} {x y : ℚ} (ha : a.Holds x) (hb : b.Holds y) :
    ((a.mul b).isFloat = true ↔ ¬ Representable (x * y)) ∧
    (Representable (x * y) → (a.mul b).Canonical (x * y)) := by
  obtain ⟨f, hf, wf, rfl⟩ := ha.exists_fraction
  obtain ⟨g, hg, wg, rfl⟩ := hb.exists_fraction
  have float_iff := Number.isFloat_mul_iff hf hg wf wg
  refine ⟨float_iff, fun held => ?_⟩
  have exact : (a.mul b).isFloat = false := by
    rw [← Bool.not_eq_true, float_iff, not_not]
    exact held
  exact Operator.multiply.canonical_apply ha hb rfl rfl exact

theorem product_of_wide_parts :
    let a : Number := .fraction ⟨Int64.minValue, 3⟩
    let b : Number := .fraction ⟨3, 4611686018427387904⟩
    a.Holds (-9223372036854775808 / 3) ∧ b.Holds (3 / 4611686018427387904) ∧
      Representable (-9223372036854775808 / 3 * (3 / 4611686018427387904)) ∧
      (a.mul b).Canonical (-9223372036854775808 / 3 * (3 / 4611686018427387904)) := by
  intro a b
  have ha : a.Holds (-9223372036854775808 / 3) := ⟨by decide, by decide +kernel⟩
  have hb : b.Holds (3 / 4611686018427387904) := ⟨by decide, by decide +kernel⟩
  have held : Representable (-9223372036854775808 / 3 * (3 / 4611686018427387904)) := by
    decide +kernel
  exact ⟨ha, hb, held, (product_exact_iff ha hb).2 held⟩

/-- The quotient of two integers is the number of the ratio that they make, and a float exactly if
they make none because it cannot be held. -/
theorem quotient_agrees_with_ratio (m : Int64) {n : Int64} (hn : n ≠ 0) :
    ∃ r, (Number.integer m).div (.integer n) = .ok r ∧
      (∀ f, Fraction.ofRatio m n = .ok f → r = .ofFraction f) ∧
      (r.isFloat = true ↔ ∃ message, Fraction.ofRatio m n = .error (.overflow message)) := by
  have hn0 : n.toInt ≠ 0 := fun h => hn (Int64.toInt_inj.mp h)
  have hzero : (Fraction.ofInt64 n).rational ≠ 0 := by
    rw [Fraction.rational_ofInt64]
    exact_mod_cast hn0
  have quotient := Fraction.div?_ofInt64 m hn0
  refine ⟨_, Number.div_eq_ok rfl (Fraction.wellFormed_ofInt64 n) hzero, fun f hf => ?_, ?_⟩
  · rw [Number.viaFractions?_eq rfl rfl, quotient, (Fraction.ofRatio_eq_ok_iff hn0).mp hf]
    rfl
  · rw [Number.isFloat_viaFractions_iff rfl rfl, quotient, Fraction.ofRatio_eq_overflow_iff hn0,
      Fraction.ofRational?_eq_none_iff]

theorem quotients_of_least_word :
    (-2 : Int64) ≠ 0 ∧ (-1 : Int64) ≠ 0 ∧
      (Number.integer Int64.minValue).div (.integer (-2)) =
        .ok (.ofFraction ⟨4611686018427387904, 1⟩) ∧
      ∃ r, (Number.integer Int64.minValue).div (.integer (-1)) = .ok r ∧ r.isFloat = true := by
  have htwo : (-2 : Int64) ≠ 0 := by decide
  have hone : (-1 : Int64) ≠ 0 := by decide
  obtain ⟨r, hr, made, -⟩ := quotient_agrees_with_ratio Int64.minValue htwo
  obtain ⟨q, hq, -, float_iff⟩ := quotient_agrees_with_ratio Int64.minValue hone
  have ratio : Fraction.ofRatio Int64.minValue (-2) = .ok ⟨4611686018427387904, 1⟩ :=
    eq_ok_of_toOption (by decide +kernel)
  have overflow := (Fraction.ofRatio_eq_overflow_iff (n := Int64.minValue) (d := -1)
    (by decide)).mpr (by decide +kernel)
  exact ⟨htwo, hone, made _ ratio ▸ hr, q, hq, float_iff.mpr overflow⟩

end Reckoner

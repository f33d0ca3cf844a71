import Reckoner.Proofs.Canonical
import Reckoner.Proofs.LowestTerms

/-! Fractions made of two words, turned over and negated. Main statement: each of the three has the
exact result whenever it can be held, and tells why there is none otherwise; what has been turned
over or negated gives the fraction back when that is done again. -/
namespace Reckoner.Fraction
open Word

/-- What comes of an exact result: its fraction, or a complaint if it cannot be held. -/
def held (x : ℚ) (complaint : String) : Except Error Fraction :=
  match ofRational? x with
  | some f => .ok f
  | none => .error (.overflow complaint)

/-- What is defined to have this exact value or to lack it has just three outcomes, each under a
condition of its own. -/
theorem outcomes {made : Except Error Fraction} {undefined : Prop} [Decidable undefined] {x : ℚ}
    {complaint : String} (h : made = if undefined then .error .divisionByZero else held x complaint) :
    (made = .error .divisionByZero ↔ undefined) ∧
    ((∃ message, made = .error (.overflow message)) ↔ ¬undefined ∧ ¬Representable x) ∧
    (¬undefined → Representable x → ∃ f, made = .ok f ∧ f.WellFormed ∧ f.rational = x) := by
  subst h
  by_cases hu : undefined
  · simp [hu, Error.divisionByZero]
  · have lost := @ofRational?_eq_none_iff x
    rw [held]
    cases hx : ofRational? x with
    | none =>
      have lost := lost.mp hx
      simp [hu, lost, Error.divisionByZero]
    | some f =>
      have kept : Representable x := by
        by_contra h
        rw [lost.mpr h] at hx
        contradiction
      obtain ⟨wf, value⟩ := ofRational?_eq_some_iff.mp hx
      simp [hu, kept, wf, value, Error.divisionByZero]

theorem ofRatio_eq (n d : Int64) : ∃ complaint, ofRatio n d =
    if d = 0 then .error .divisionByZero else held (n.toInt / d.toInt) complaint := by
  refine ⟨Numeral.intText n.toInt ++ " / " ++ Numeral.intText d.toInt ++
    " does not fit a 64-bit fraction", ?_⟩
  rw [ofRatio]
  split
  · rfl
  next hd =>
    have hd0 : d.toInt ≠ 0 := fun h => hd (Int64.toInt_inj.mp h)
    rw [ofParts?_lowestTerms n.toInt hd0]
    unfold held
    cases ofRational? (n.toInt / d.toInt : ℚ) <;> rfl

section Fraction
variable {f : Fraction} (hf : f.WellFormed)
include hf

theorem num_rational : f.rational.num = f.numerator.toInt :=
  Rat.num_div_eq_of_coprime hf.1 hf.2

theorem ofRational?_rational : ofRational? f.rational = some f :=
  ofRational?_eq_some_iff.mpr ⟨hf, rfl⟩

theorem not_representable_inverse (least : f.numerator = Int64.minValue) :
    ¬ Representable (f.rational)⁻¹ := by
  have low : f.numerator.toInt = -9223372036854775808 := congrArg Int64.toInt least
  have hn : f.numerator.toInt ≠ 0 := by omega
  have wide : ¬ Fits (f.numerator.toInt.sign * f.numerator.toInt) := by
    rw [low]
    decide
  rw [rational, inv_div, representable_ratio_iff hn (Int.gcd_comm .. ▸ hf.2)]
  exact fun h => wide h.2

/-- The guard against the least word keeps out just the fractions whose inverse cannot be held. -/
theorem inverse_eq : ∃ complaint, f.inverse =
    if f.rational = 0 then .error .divisionByZero else held (f.rational)⁻¹ complaint := by
  have zero_iff := rational_eq_zero_iff hf
  rw [← isZero_iff] at zero_iff
  refine ⟨"the inverse of " ++ f.text ++ " does not fit a 64-bit fraction", ?_⟩
  by_cases hz : f.isZero = true
  · rw [inverse, if_pos hz, if_pos (zero_iff.mpr hz)]
  rw [if_neg (mt zero_iff.mp hz), held]
  by_cases least : f.numerator = Int64.minValue
  · rw [ofRational?_eq_none_iff.mpr (not_representable_inverse hf least), inverse, if_neg hz,
      if_pos least]
  · obtain ⟨g, hg⟩ : ∃ g, f.inverse = .ok g := by
      rw [inverse, if_neg hz, if_neg least]
      split <;> exact ⟨_, rfl⟩
    rw [hg, ofRational?_eq_some_iff.mpr (inverse_exact hf hg)]

theorem inverse_of_inverse {g : Fraction} (hg : f.inverse = .ok g) : g.inverse = .ok f := by
  obtain ⟨wf, value⟩ := inverse_exact hf hg
  obtain ⟨_, first⟩ := inverse_eq hf
  obtain ⟨_, second⟩ := inverse_eq wf
  have hzero : f.rational ≠ 0 := by
    intro h
    rw [if_pos h] at first
    rw [first] at hg
    contradiction
  rw [second, value, if_neg (inv_ne_zero hzero), inv_inv, held, ofRational?_rational hf]

/-- Over the denominator one, zero can be combined with whatever can be held in the end. -/
theorem neg?_eq : f.neg? = ofRational? (-f.rational) := by
  have common : commonDenominator (ofInt64 0) f = f.denominator.toInt := by
    have one : (ofInt64 0).denominator.toInt = 1 := rfl
    rw [commonDenominator, one, Int.lcm_one_left, Int.natAbs_of_nonneg hf.1.le]
  have zero : (ofInt64 0).numeratorOver f.denominator.toInt = 0 := by
    simp [numeratorOver, ofInt64]
  have own : f.numeratorOver f.denominator.toInt = f.numerator.toInt := by
    rw [numeratorOver, Int.ediv_self hf.1.ne', one_mul]
  have combinable : Combinable (· - ·) (ofInt64 0) f ↔ Representable (-f.rational) := by
    rw [Combinable, common, zero, own, Representable, Rat.num_neg_eq_neg_num, num_rational hf,
      Rat.den_neg_eq_den, den_rational hf, zero_sub]
    simp only [fits_toInt, true_and, and_true, and_iff_right_iff_imp]
    exact fun _ => by decide
  rw [neg?, sub?_eq (wellFormed_ofInt64 0) hf, rational_ofInt64]
  split
  next => simp
  next h => exact (ofRational?_eq_none_iff.mpr (mt combinable.mpr h)).symm

theorem neg?_of_neg? {g : Fraction} (hg : f.neg? = some g) : g.neg? = some f := by
  obtain ⟨wf, value⟩ := neg?_exact hf hg
  rw [neg?_eq wf, value, neg_neg, ofRational?_rational hf]

end Fraction

/-- Of two words a fraction is made unless the second is zero or the ratio cannot be held. A
fraction is turned over unless it is zero or its inverse cannot be held, and negated unless its
negation cannot be held. What is made is the exact result in lowest terms, and turned over or
negated again it is the fraction that there was before. -/
theorem inversion_exact_iff :
    (∀ n d : Int64,
      (ofRatio n d = .error .divisionByZero ↔ d = 0) ∧
      ((∃ message, ofRatio n d = .error (.overflow message)) ↔
        d ≠ 0 ∧ ¬ Representable (n.toInt / d.toInt)) ∧
      (d ≠ 0 → Representable (n.toInt / d.toInt) →
        ∃ f, ofRatio n d = .ok f ∧ f.WellFormed ∧ f.rational = n.toInt / d.toInt)) ∧
    ∀ f : Fraction, f.WellFormed →
      (f.inverse = .error .divisionByZero ↔ f.rational = 0) ∧
      ((∃ message, f.inverse = .error (.overflow message)) ↔
        f.rational ≠ 0 ∧ ¬ Representable (f.rational)⁻¹) ∧
      (f.rational ≠ 0 → Representable (f.rational)⁻¹ →
        ∃ g, f.inverse = .ok g ∧ g.WellFormed ∧ g.rational = (f.rational)⁻¹ ∧ g.inverse = .ok f) ∧
      (f.neg? = none ↔ ¬ Representable (-f.rational)) ∧
      (Representable (-f.rational) →
        ∃ g, f.neg? = some g ∧ g.WellFormed ∧ g.rational = -f.rational ∧ g.neg? = some f) := by
  constructor
  · intro n d
    obtain ⟨_, made⟩ := ofRatio_eq n d
    exact outcomes made
  intro f hf
  obtain ⟨_, made⟩ := inverse_eq hf
  obtain ⟨zero, lost, kept⟩ := outcomes made
  refine ⟨zero, lost, fun hzero hrep => ?_, ?_, fun hrep => ?_⟩
  · obtain ⟨g, hg, wf, value⟩ := kept hzero hrep
    exact ⟨g, hg, wf, value, inverse_of_inverse hf hg⟩
  · rw [neg?_eq hf, ofRational?_eq_none_iff]
  · cases hg : f.neg? with
    | none =>
      rw [neg?_eq hf, ofRational?_eq_none_iff] at hg
      exact absurd hrep hg
    | some g =>
      obtain ⟨wf, value⟩ := neg?_exact hf hg
      exact ⟨g, rfl, wf, value, neg?_of_neg? hf hg⟩

/-- The least word cannot be negated, but it cancels against itself and against two. -/
theorem inversion_of_least_word :
    let least : Fraction := ⟨Int64.minValue, 3⟩
    let third : Fraction := ⟨-3, Int64.maxValue⟩
    (∃ message, ofRatio Int64.minValue (-1) = .error (.overflow message)) ∧
    (∃ message, ofRatio 1 Int64.minValue = .error (.overflow message)) ∧
    (∃ f, ofRatio 2 Int64.minValue = .ok f ∧ f.WellFormed ∧ f.rational = -1 / 4611686018427387904) ∧
    (∃ f, ofRatio Int64.minValue Int64.minValue = .ok f ∧ f.WellFormed ∧ f.rational = 1) ∧
    least.WellFormed ∧ (∃ message, least.inverse = .error (.overflow message)) ∧
    least.neg? = none ∧
    third.WellFormed ∧
    (∃ g, third.inverse = .ok g ∧ g.rational = (third.rational)⁻¹ ∧ g.inverse = .ok third) ∧
    ∃ g, third.neg? = some g ∧ g.rational = -third.rational ∧ g.neg? = some third := by
  intro least third
  have hleast : least.WellFormed := by decide
  have hthird : third.WellFormed := by decide
  obtain ⟨made, turned⟩ := inversion_exact_iff
  obtain ⟨-, turnedLeast, -, negatedLeast, -⟩ := turned least hleast
  obtain ⟨-, -, turnedThird, -, negatedThird⟩ := turned third hthird
  obtain ⟨f, hf, wf, half⟩ := (made 2 Int64.minValue).2.2 (by decide) (by decide +kernel)
  obtain ⟨g, hg, wg, one⟩ :=
    (made Int64.minValue Int64.minValue).2.2 (by decide) (by decide +kernel)
  obtain ⟨i, hi, -, inverse, back⟩ := turnedThird (by decide +kernel) (by decide +kernel)
  obtain ⟨m, hm, -, negation, again⟩ := negatedThird (by decide +kernel)
  exact ⟨(made Int64.minValue (-1)).2.1.mpr ⟨by decide, by decide +kernel⟩,
    (made 1 Int64.minValue).2.1.mpr ⟨by decide, by decide +kernel⟩,
    ⟨f, hf, wf, half.trans (by decide +kernel)⟩, ⟨g, hg, wg, one.trans (by decide +kernel)⟩,
    hleast, turnedLeast.mpr ⟨by decide +kernel, by decide +kernel⟩,
    negatedLeast.mpr (by decide +kernel), hthird, ⟨i, hi, inverse, back⟩, m, hm, negation, again⟩

end Reckoner.Fraction

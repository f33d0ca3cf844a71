import Mathlib.Data.Rat.Lemmas
import Mathlib.RingTheory.Coprime.Lemmas
import Mathlib.Tactic.FieldSimp
import Mathlib.Tactic.Linarith
import Reckoner.Fraction.Arithmetic

/-! Rational numbers that words can hold. Main statements: an operation on fractions has the
fraction of the exact result. A product has it whenever it can be held, a sum or a difference where
the common denominator and the numerators over it can be held as well, and a quotient unless its
numerator is the least word with the wrong sign at first. -/
namespace Reckoner

namespace Word

theorem exactly?_eq_some_iff {n m : Int} : exactly? n = some m ↔ Fits n ∧ n = m := by
  simp [exactly?]

theorem bind_exactly? {α : Type} (n : Int) (next : Int → Option α) :
    (exactly? n).bind next = if Fits n then next n else none := by
  unfold exactly?
  split <;> rfl

theorem fits_of_mul {n k : Int} (hk : 0 < k) (h : Fits (n * k)) : Fits n := by
  obtain ⟨hlow, hhigh⟩ := h
  rcases Int.le_total 0 n with h0 | h0
  · have hle : n ≤ n * k := le_mul_of_one_le_right h0 hk
    constructor <;> omega
  · have hle : n * k ≤ n := by nlinarith
    constructor <;> omega

end Word

/-- Both parts of the number in lowest terms, the denominator positive, fit in words. -/
def Representable (x : ℚ) : Prop := Word.Fits x.num ∧ Word.Fits x.den

instance (x : ℚ) : Decidable (Representable x) := inferInstanceAs (Decidable (_ ∧ _))

theorem representable_intCast_iff {n : Int} : Representable n ↔ Word.Fits n := by
  rw [Representable, Rat.num_intCast, Rat.den_intCast]
  exact and_iff_left (by decide)

theorem parts_of_coprime {n d : Int} (hd : d ≠ 0) (coprime : Int.gcd n d = 1) :
    (n / d : ℚ).num = d.sign * n ∧ ((n / d : ℚ).den : Int) = d.sign * d := by
  rcases hd.lt_or_gt with hneg | hpos
  · have hquot : (n / d : ℚ) = (-n : Int) / (-d : Int) := by
      push_cast
      exact (neg_div_neg_eq _ _).symm
    have coprime : Int.gcd (-n) (-d) = 1 := by rwa [Int.neg_gcd, Int.gcd_neg]
    rw [hquot, Int.sign_eq_neg_one_of_neg hneg, neg_one_mul, neg_one_mul]
    exact ⟨Rat.num_div_eq_of_coprime (by omega) coprime, Rat.den_div_eq_of_coprime (by omega) coprime⟩
  · rw [Int.sign_eq_one_of_pos hpos, one_mul, one_mul]
    exact ⟨Rat.num_div_eq_of_coprime hpos coprime, Rat.den_div_eq_of_coprime hpos coprime⟩

theorem representable_ratio_iff {n d : Int} (hd : d ≠ 0) (coprime : Int.gcd n d = 1) :
    Representable (n / d) ↔ Word.Fits (d.sign * n) ∧ Word.Fits (d.sign * d) := by
  obtain ⟨hnum, hden⟩ := parts_of_coprime hd coprime
  rw [Representable, hnum, hden]

theorem exists_coprime_parts {a b : Int} (hb : b ≠ 0) :
    ∃ m n k : Int, 0 < k ∧ (Int.gcd a b : Int) = k ∧ a = m * k ∧ b = n * k ∧ Int.gcd m n = 1 := by
  have hpos : 0 < Int.gcd a b := Int.gcd_pos_of_ne_zero_right a hb
  obtain ⟨m, n, coprime, ha, hb⟩ := Int.exists_gcd_one hpos
  exact ⟨m, n, Int.gcd a b, by exact_mod_cast hpos, rfl, ha, hb, coprime⟩

theorem representable_of_fits {n d : Int} (hd : 0 < d) (hn : Word.Fits n) (hdf : Word.Fits d) :
    Representable (n / d) := by
  obtain ⟨x, y, k, hk, -, rfl, rfl, coprime⟩ := exists_coprime_parts (a := n) hd.ne'
  have hy : 0 < y := pos_of_mul_pos_left hd hk.le
  have hk0 : (k : ℚ) ≠ 0 := by exact_mod_cast hk.ne'
  push_cast
  rw [mul_div_mul_right _ _ hk0, representable_ratio_iff hy.ne' coprime,
    Int.sign_eq_one_of_pos hy, one_mul, one_mul]
  exact ⟨Word.fits_of_mul hk hn, Word.fits_of_mul hk hdf⟩

theorem coprime_across {a b c d k l : Int} (hf : Int.gcd (a * k) (b * l) = 1)
    (hg : Int.gcd (c * l) (d * k) = 1) (had : Int.gcd a d = 1) (hcb : Int.gcd c b = 1) :
    Int.gcd (a * c) (b * d) = 1 := by
  rw [← Int.isCoprime_iff_gcd_eq_one] at hf hg had hcb ⊢
  have hab : IsCoprime a b := hf.of_mul_left_left.of_mul_right_left
  have hcd : IsCoprime c d := hg.of_mul_left_left.of_mul_right_left
  exact (hab.mul_right had).mul_left (hcb.mul_right hcd)

theorem mul_across {a b c d k l : Int} (hk : k ≠ 0) (hl : l ≠ 0) :
    ((a * k : Int) : ℚ) / (b * l : Int) * ((c * l : Int) / (d * k : Int)) =
      (a * c : Int) / (b * d : Int) := by
  have hk0 : (k : ℚ) ≠ 0 := by exact_mod_cast hk
  have hl0 : (l : ℚ) ≠ 0 := by exact_mod_cast hl
  push_cast
  field_simp

namespace Fraction
open Word

def rational (f : Fraction) : ℚ :=
  f.numerator.toInt / f.denominator.toInt

/-- The fraction that is this number, provided that its parts fit. -/
def ofRational? (x : ℚ) : Option Fraction := ofParts? (x.num, x.den)

theorem rational_ofInt64 (n : Int64) : (ofInt64 n).rational = n.toInt := by
  simp [rational, ofInt64]

theorem wellFormed_ofInt64 (n : Int64) : (ofInt64 n).WellFormed :=
  ⟨Int.one_pos, by simp [ofInt64]⟩

theorem isZero_iff {f : Fraction} : f.isZero = true ↔ f.numerator.toInt = 0 := by
  rw [isZero, decide_eq_true_iff]
  exact Int64.toInt_inj.symm

theorem rational_eq_zero_iff {f : Fraction} (hf : f.WellFormed) :
    f.rational = 0 ↔ f.numerator.toInt = 0 := by
  simp [rational, hf.1.ne']

theorem ofParts?_eq_some_iff {parts : Int × Int} {f : Fraction} :
    ofParts? parts = some f ↔ f.numerator.toInt = parts.1 ∧ f.denominator.toInt = parts.2 := by
  obtain ⟨n, d⟩ := f
  simp [ofParts?, Option.bind_eq_some_iff, ofInt?_eq_some_iff, and_comm]

theorem ofParts?_eq_ite (parts : Int × Int) :
    ofParts? parts = if Fits parts.1 ∧ Fits parts.2 then some (ofParts parts) else none := by
  unfold ofParts? ofInt?
  by_cases hn : Fits parts.1 <;> by_cases hd : Fits parts.2 <;> simp [hn, hd, ofParts]

theorem ofRational?_eq_none_iff {x : ℚ} : ofRational? x = none ↔ ¬ Representable x := by
  rw [ofRational?, ofParts?_eq_ite]
  simp [Representable]

theorem ofRational?_eq_some_iff {x : ℚ} {f : Fraction} :
    ofRational? x = some f ↔ f.WellFormed ∧ f.rational = x := by
  rw [ofRational?, ofParts?_eq_some_iff]
  constructor
  · rintro ⟨hn, hd⟩
    rw [WellFormed, rational, hn, hd]
    exact ⟨⟨Int.natCast_pos.mpr x.pos, x.reduced⟩, Rat.num_div_den x⟩
  · rintro ⟨⟨hpos, coprime⟩, rfl⟩
    exact ⟨(Rat.num_div_eq_of_coprime hpos coprime).symm,
      (Rat.den_div_eq_of_coprime hpos coprime).symm⟩

theorem ofRational?_ratio {n d k : Int} (hk : k ≠ 0) (hd : d ≠ 0) (coprime : Int.gcd n d = 1) :
    ofRational? ((n * k : Int) / (d * k : Int)) = ofParts? (d.sign * n, d.sign * d) := by
  have hk0 : (k : ℚ) ≠ 0 := by exact_mod_cast hk
  obtain ⟨hnum, hden⟩ := parts_of_coprime hd coprime
  push_cast
  rw [mul_div_mul_right _ _ hk0, ofRational?, hnum, hden]

theorem ofParts?_lowestTerms (n : Int) {d : Int} (hd : d ≠ 0) :
    ofParts? (lowestTerms n d) = ofRational? (n / d) := by
  obtain ⟨x, y, k, hk, hgcd, rfl, rfl, coprime⟩ := exists_coprime_parts (a := n) hd
  rw [ofRational?_ratio hk.ne' (left_ne_zero_of_mul hd) coprime, lowestTerms, hgcd,
    Int.mul_tdiv_cancel _ hk.ne', Int.mul_tdiv_cancel _ hk.ne', Int.sign_mul,
    Int.sign_eq_one_of_pos hk, mul_one]

/-- Reduction needs no change of sign where the denominator is positive. -/
theorem result_reduce {n d : Int} (hd : 0 < d) (hn : Fits n) (hdf : Fits d) :
    (reduce n d).result = ofRational? (n / d) := by
  rw [reduce]
  split
  next hn0 =>
    rw [hn0, Int.cast_zero, zero_div]
    rfl
  split
  next hnd =>
    have hd0 : (d : ℚ) ≠ 0 := by exact_mod_cast hd.ne'
    rw [hnd, div_self hd0]
    rfl
  obtain ⟨x, y, k, hk, hgcd, rfl, rfl, coprime⟩ := exists_coprime_parts (a := n) hd.ne'
  have hy : 0 < y := pos_of_mul_pos_left hd hk.le
  simp only [Worked.result_bind, divisor, part, Worked.result_surely, Option.bind_some, hgcd,
    Int.mul_tdiv_cancel _ hk.ne', if_neg hy.not_gt]
  rw [ofRational?_ratio hk.ne' hy.ne' coprime, Int.sign_eq_one_of_pos hy, one_mul, one_mul,
    ofParts?_eq_ite, if_pos ⟨fits_of_mul hk hn, fits_of_mul hk hdf⟩]
  rfl

/-- The least common denominator of two fractions. -/
def commonDenominator (f g : Fraction) : Int :=
  Int.lcm f.denominator.toInt g.denominator.toInt

/-- The numerator of the fraction over a multiple of its denominator. -/
def numeratorOver (f : Fraction) (multiple : Int) : Int :=
  multiple / f.denominator.toInt * f.numerator.toInt

/-- Over their least common denominator both fractions can be held, and combined before anything is
cancelled. -/
def Combinable (op : Int → Int → Int) (f g : Fraction) : Prop :=
  let common := commonDenominator f g
  Fits common ∧ Fits (f.numeratorOver common) ∧ Fits (g.numeratorOver common) ∧
    Fits (op (f.numeratorOver common) (g.numeratorOver common))

instance (op : Int → Int → Int) (f g : Fraction) : Decidable (Combinable op f g) :=
  inferInstanceAs (Decidable (_ ∧ _))

theorem tdiv_mul_eq_numeratorOver {f : Fraction} {multiple : Int}
    (dvd : f.denominator.toInt ∣ multiple) :
    multiple.tdiv f.denominator.toInt * f.numerator.toInt = f.numeratorOver multiple := by
  rw [Int.tdiv_eq_ediv_of_dvd dvd, numeratorOver]

theorem rational_eq_numeratorOver {f : Fraction} (hf : f.WellFormed) {multiple : Int}
    (hm : multiple ≠ 0) (dvd : f.denominator.toInt ∣ multiple) :
    f.rational = f.numeratorOver multiple / multiple := by
  obtain ⟨k, rfl⟩ := dvd
  have hk : (k : ℚ) ≠ 0 := by exact_mod_cast right_ne_zero_of_mul hm
  rw [rational, numeratorOver, Int.mul_ediv_cancel_left k hf.1.ne']
  push_cast
  rw [mul_comm (k : ℚ), mul_div_mul_right _ _ hk]

section Operations
variable {f g : Fraction} (hf : f.WellFormed) (hg : g.WellFormed)
include hf hg

theorem commonDenominator_pos : 0 < commonDenominator f g :=
  Int.natCast_pos.mpr (Int.lcm_pos hf.1.ne' hg.1.ne')

theorem part_mul_eq_commonDenominator :
    f.denominator.toInt.tdiv (Int.gcd f.denominator.toInt g.denominator.toInt) *
      g.denominator.toInt = commonDenominator f g := by
  have hgcd : (Int.gcd f.denominator.toInt g.denominator.toInt : Int) ≠ 0 := by
    exact_mod_cast (Int.gcd_pos_of_ne_zero_right _ hg.1.ne').ne'
  apply mul_left_cancel₀ hgcd
  rw [← mul_assoc, Int.mul_tdiv_cancel' (Int.gcd_dvd_left _ _), commonDenominator,
    ← Int.natCast_mul, Int.gcd_mul_lcm, ← Int.natAbs_mul,
    Int.natAbs_of_nonneg (mul_pos hf.1 hg.1).le]

theorem result_combine (op : Int → Int → Int) :
    (combine op f g).result =
      let common := commonDenominator f g
      if Combinable op f g then
        ofRational? ((op (f.numeratorOver common) (g.numeratorOver common) : Int) / common)
      else none := by
  have hleft : f.denominator.toInt ∣ commonDenominator f g := Int.dvd_lcm_left _ _
  have hright : g.denominator.toInt ∣ commonDenominator f g := Int.dvd_lcm_right _ _
  simp only [combine, Worked.result_bind, divisor, part, Worked.result_surely,
    Worked.result_exactly, Option.bind_some, part_mul_eq_commonDenominator hf hg, bind_exactly?,
    tdiv_mul_eq_numeratorOver hleft, tdiv_mul_eq_numeratorOver hright]
  by_cases h : Combinable op f g
  · rw [if_pos h]
    obtain ⟨hcommon, hl, hr, hn⟩ := h
    rw [if_pos hcommon, if_pos hl, if_pos hr, if_pos hn]
    exact result_reduce (commonDenominator_pos hf hg) hn hcommon
  · rw [if_neg h]
    split_ifs with hcommon hl hr hn
    · exact absurd ⟨hcommon, hl, hr, hn⟩ h
    all_goals rfl

theorem result_combine_eq_none_iff (op : Int → Int → Int) :
    (combine op f g).result = none ↔ ¬ Combinable op f g := by
  rw [result_combine hf hg]
  by_cases h : Combinable op f g
  · have held := representable_of_fits (commonDenominator_pos hf hg) h.2.2.2 h.1
    simp [h, ofRational?_eq_none_iff, held]
  · simp [h]

theorem add?_eq : f.add? g =
    if Combinable (· + ·) f g then ofRational? (f.rational + g.rational) else none := by
  have hne := (commonDenominator_pos hf hg).ne'
  rw [add?, sum, result_combine hf hg, rational_eq_numeratorOver hf hne (Int.dvd_lcm_left _ _),
    rational_eq_numeratorOver hg hne (Int.dvd_lcm_right _ _), ← add_div, ← Int.cast_add]

theorem sub?_eq : f.sub? g =
    if Combinable (· - ·) f g then ofRational? (f.rational - g.rational) else none := by
  have hne := (commonDenominator_pos hf hg).ne'
  rw [sub?, difference, result_combine hf hg,
    rational_eq_numeratorOver hf hne (Int.dvd_lcm_left _ _),
    rational_eq_numeratorOver hg hne (Int.dvd_lcm_right _ _), ← sub_div, ← Int.cast_sub]

/-- What is left after cancelling across is in lowest terms, so that only a product that cannot be
held is lost. -/
theorem mul?_eq : f.mul? g = ofRational? (f.rational * g.rational) := by
  obtain ⟨a, d, k, hk, hgcd, ha, hd, had⟩ :=
    exists_coprime_parts (a := f.numerator.toInt) hg.1.ne'
  obtain ⟨c, b, l, hl, hgcd', hc, hb, hcb⟩ :=
    exists_coprime_parts (a := g.numerator.toInt) hf.1.ne'
  have hpos : 0 < b * d := mul_pos (pos_of_mul_pos_left (hb ▸ hf.1) hl.le)
    (pos_of_mul_pos_left (hd ▸ hg.1) hk.le)
  have coprime : Int.gcd (a * c) (b * d) = 1 :=
    coprime_across (ha ▸ hb ▸ hf.2) (hc ▸ hd ▸ hg.2) had hcb
  have value : f.rational * g.rational = (a * c : Int) / (b * d : Int) := by
    rw [rational, rational, ha, hb, hc, hd, mul_across hk.ne' hl.ne']
  have held := representable_ratio_iff hpos.ne' coprime
  rw [Int.sign_eq_one_of_pos hpos, one_mul, one_mul] at held
  rw [Int.gcd_comm] at hgcd'
  simp only [mul?, product, Worked.result_bind, divisor, part, Worked.result_surely,
    Worked.result_exactly, Option.bind_some, hgcd, hgcd']
  rw [ha, hb, hc, hd, Int.mul_tdiv_cancel _ hk.ne', Int.mul_tdiv_cancel _ hl.ne',
    Int.mul_tdiv_cancel _ hk.ne', Int.mul_tdiv_cancel _ hl.ne', value, bind_exactly?]
  split_ifs with hn
  · rw [bind_exactly?]
    split_ifs with hd
    · exact result_reduce hpos hn hd
    · exact (ofRational?_eq_none_iff.mpr fun h => hd (held.mp h).2).symm
  · exact (ofRational?_eq_none_iff.mpr fun h => hn (held.mp h).1).symm

end Operations

theorem div?_of_parts {f g : Fraction} (hz : g.isZero = false) {n m : Int}
    (hparts : (quotientParts f g).result = some (n, m)) (hm : m ≠ 0) (hn : Fits n)
    (hmf : Fits m) : f.div? g = ofRational? (n / m) := by
  rw [div?, quotient, hz]
  simp only [Bool.false_eq_true, if_false, Worked.result_bind, hparts, Option.bind_some]
  split
  next hn0 =>
    rw [hn0, Int.cast_zero, zero_div]
    rfl
  split
  next hnm =>
    have hm0 : (m : ℚ) ≠ 0 := by exact_mod_cast hm
    rw [hnm, div_self hm0]
    rfl
  obtain ⟨x, y, k, hk, hgcd, rfl, rfl, coprime⟩ := exists_coprime_parts (a := n) hm
  have hy : y ≠ 0 := left_ne_zero_of_mul hm
  simp only [Worked.result_bind, divisor, part, Worked.result_surely, Option.bind_some, hgcd,
    Int.mul_tdiv_cancel _ hk.ne']
  rw [ofRational?_ratio hk.ne' hy coprime, ofParts?_eq_ite]
  split
  next hneg =>
    rw [Int.sign_eq_neg_one_of_neg hneg, neg_one_mul, neg_one_mul]
    simp only [Worked.result_bind, Worked.result_exactly, Worked.result_pure, bind_exactly?,
      ite_and]
  next hneg =>
    rw [Int.sign_eq_one_of_pos (by omega), one_mul, one_mul,
      if_pos ⟨fits_of_mul hk hn, fits_of_mul hk hmf⟩]
    rfl

theorem div?_of_no_parts {f g : Fraction} (h : (quotientParts f g).result = none) :
    f.div? g = none := by
  rw [div?, quotient]
  split
  · rfl
  · rw [Worked.result_bind, h, Option.bind_none]

/-- The numerator of the quotient is the least word and has the opposite sign at first: the divisor
is negative, and neither the denominators nor the numerators cancel at once. -/
def LeastTurned (f g : Fraction) : Prop :=
  (f.rational / g.rational).num = Int64.minValue.toInt ∧ g.numerator.toInt < 0 ∧
    f.denominator ≠ g.denominator ∧ f.numerator ≠ g.numerator

instance (f g : Fraction) : Decidable (LeastTurned f g) := inferInstanceAs (Decidable (_ ∧ _))

section Quotient
variable {f g : Fraction} (hf : f.WellFormed) (hg : g.WellFormed) (hzero : g.numerator.toInt ≠ 0)
include hf hg hzero

/-- Unless denominators or numerators are equal, everything is cancelled across, and the sign is
the one of the divisor. -/
theorem exists_quotientParts (hden : f.denominator ≠ g.denominator)
    (hnum : f.numerator ≠ g.numerator) :
    ∃ n m : Int, m ≠ 0 ∧ Int.gcd n m = 1 ∧ m.sign = g.numerator.toInt.sign ∧
      f.rational / g.rational = n / m ∧
      (quotientParts f g).result = if Fits n ∧ Fits m then some (n, m) else none := by
  obtain ⟨a, c, k, hk, hgcd, ha, hc, hac⟩ := exists_coprime_parts (a := f.numerator.toInt) hzero
  obtain ⟨b, d, l, hl, hgcd', hb, hd, hbd⟩ :=
    exists_coprime_parts (a := f.denominator.toInt) (hg.1.ne')
  have hbpos : 0 < b := pos_of_mul_pos_left (hb ▸ hf.1) hl.le
  have hdpos : 0 < d := pos_of_mul_pos_left (hd ▸ hg.1) hl.le
  have hc0 : c ≠ 0 := left_ne_zero_of_mul (hc ▸ hzero)
  refine ⟨a * d, b * c, mul_ne_zero hbpos.ne' hc0, ?_, ?_, ?_, ?_⟩
  · have hg2 : Int.gcd (d * l) (c * k) = 1 := by
      rw [← hd, ← hc, Int.gcd_comm]
      exact hg.2
    exact coprime_across (ha ▸ hb ▸ hf.2) hg2 hac (Int.gcd_comm b d ▸ hbd)
  · rw [hc, Int.sign_mul, Int.sign_mul, Int.sign_eq_one_of_pos hbpos, Int.sign_eq_one_of_pos hk,
      one_mul, mul_one]
  · rw [rational, rational, ha, hb, hc, hd, div_eq_mul_inv, inv_div, mul_across hk.ne' hl.ne']
  · rw [quotientParts, if_neg (Int64.toInt_inj.not.mpr hden), if_neg (Int64.toInt_inj.not.mpr hnum)]
    simp only [Worked.result_bind, divisor, part, Worked.result_surely, Worked.result_exactly,
      Option.bind_some, Worked.result_pure, hgcd, hgcd']
    rw [ha, hb, hc, hd, Int.mul_tdiv_cancel _ hk.ne', Int.mul_tdiv_cancel _ hl.ne',
      Int.mul_tdiv_cancel _ hk.ne', Int.mul_tdiv_cancel _ hl.ne']
    simp only [bind_exactly?, ite_and]

theorem div?_eq_of_ne (hden : f.denominator ≠ g.denominator) (hnum : f.numerator ≠ g.numerator) :
    f.div? g = if LeastTurned f g then none else ofRational? (f.rational / g.rational) := by
  have hz : g.isZero = false := Bool.eq_false_iff.mpr fun h => hzero (isZero_iff.mp h)
  obtain ⟨n, m, hm, coprime, hsign, value, hparts⟩ := exists_quotientParts hf hg hzero hden hnum
  have held := representable_ratio_iff hm coprime
  have turned : LeastTurned f g ↔ m.sign * n = Int64.minValue.toInt ∧ g.numerator.toInt < 0 := by
    rw [LeastTurned, value, (parts_of_coprime hm coprime).1]
    simp [hden, hnum]
  have least : Int64.minValue.toInt = -9223372036854775808 := rfl
  rw [least] at turned
  by_cases parts : Fits n ∧ Fits m
  · rw [if_pos parts] at hparts
    rw [div?_of_parts hz hparts hm parts.1 parts.2, value, if_neg]
    rw [turned]
    rintro ⟨hn, hneg⟩
    -- the numerator before the sign is moved would be one more than the greatest word
    have hhigh := parts.1.2
    rw [hsign, Int.sign_eq_neg_one_of_neg hneg] at hn
    omega
  · rw [if_neg parts] at hparts
    rw [div?_of_no_parts hparts, value]
    split
    · rfl
    next hleast =>
      refine (ofRational?_eq_none_iff.mpr fun h => parts ?_).symm
      have fits := held.mp h
      rw [turned] at hleast
      unfold Fits at fits ⊢
      rcases hzero.lt_or_gt with hneg | hpos
      · rw [Int.sign_eq_neg_one_of_neg hneg] at hsign
        have hmneg : m < 0 := Int.sign_eq_neg_one_iff_neg.mp hsign
        rw [hsign] at fits hleast
        omega
      · rw [hsign, Int.sign_eq_one_of_pos hpos] at fits
        omega

/-- A quotient that can be held is lost only if it is the least word with the wrong sign at first. -/
theorem div?_eq : f.div? g =
    if LeastTurned f g then none else ofRational? (f.rational / g.rational) := by
  have hz : g.isZero = false := Bool.eq_false_iff.mpr fun h => hzero (isZero_iff.mp h)
  by_cases hden : f.denominator = g.denominator
  · have hd0 : (f.denominator.toInt : ℚ) ≠ 0 := by exact_mod_cast hf.1.ne'
    have value : f.rational / g.rational = f.numerator.toInt / g.numerator.toInt := by
      rw [rational, rational, ← hden, div_div_div_cancel_right₀ hd0]
    rw [if_neg fun h => h.2.2.1 hden, value]
    refine div?_of_parts hz ?_ hzero (fits_toInt _) (fits_toInt _)
    rw [quotientParts, if_pos (congrArg _ hden)]
    rfl
  by_cases hnum : f.numerator = g.numerator
  · have hn0 : (g.numerator.toInt : ℚ) ≠ 0 := by exact_mod_cast hzero
    have value : f.rational / g.rational = g.denominator.toInt / f.denominator.toInt := by
      rw [rational, rational, hnum, div_div_div_cancel_left' _ _ hn0]
    rw [if_neg fun h => h.2.2.2 hnum, value]
    refine div?_of_parts hz ?_ hf.1.ne' (fits_toInt _) (fits_toInt _)
    rw [quotientParts, if_neg (Int64.toInt_inj.not.mpr hden), if_pos (congrArg _ hnum)]
    rfl
  exact div?_eq_of_ne hf hg hzero hden hnum

end Quotient
end Fraction
end Reckoner

import Reckoner.Proofs.Fallback

/-! What fraction arithmetic forms without asking whether it fits. Main statement: it all fits in
words, but for one greatest common divisor, the one of zero and the least word in a quotient. -/
namespace Reckoner

namespace Word

theorem fits_part {n k : Int} (hk : 0 < k) (dvd : k ∣ n) (fits : Fits n) : Fits (n.tdiv k) := by
  obtain ⟨m, rfl⟩ := dvd
  rw [Int.mul_tdiv_cancel_left _ hk.ne']
  exact fits_of_mul hk (mul_comm k m ▸ fits)

theorem tdiv_pos {n k : Int} (hn : 0 < n) (hk : 0 < k) (dvd : k ∣ n) : 0 < n.tdiv k := by
  obtain ⟨m, rfl⟩ := dvd
  rw [Int.mul_tdiv_cancel_left _ hk.ne']
  exact pos_of_mul_pos_right hn hk.le

theorem gcd_pos_right (n : Int) {m : Int} (hm : m ≠ 0) : (0 : Int) < Int.gcd n m := by
  exact_mod_cast Int.gcd_pos_of_ne_zero_right n hm

theorem fits_gcd_right (n : Int) {m : Int} (hm : m ≠ 0) (fits : Fits m)
    (least : m ≠ Int64.minValue.toInt) : Fits (Int.gcd n m) := by
  have least : m ≠ -9223372036854775808 := least
  have le : Int.gcd n m ≤ m.natAbs := Nat.gcd_le_right n.natAbs (Int.natAbs_pos.mpr hm)
  obtain ⟨low, high⟩ := fits
  constructor <;> omega

theorem fits_gcd_left {n : Int} (m : Int) (hn : n ≠ 0) (fits : Fits n)
    (least : n ≠ Int64.minValue.toInt) : Fits (Int.gcd n m) :=
  Int.gcd_comm m n ▸ fits_gcd_right m hn fits least

/-- Two words that are neither zero nor both the least one. -/
theorem fits_gcd_of_ne {n m : Int} (hn : n ≠ 0) (hm : m ≠ 0) (ne : n ≠ m) (fits : Fits n)
    (fits' : Fits m) : Fits (Int.gcd n m) := by
  by_cases least : n = Int64.minValue.toInt
  · exact fits_gcd_right n hm fits' (least ▸ ne.symm)
  · exact fits_gcd_left m hn fits least

namespace Worked
variable {α β : Type}

@[simp] theorem sound_pure (value : α) : (Pure.pure value : Worked α).Sound :=
  fun _ mem => absurd mem List.not_mem_nil

@[simp] theorem sound_giveUp : (giveUp : Worked α).Sound :=
  fun _ mem => absurd mem List.not_mem_nil

@[simp] theorem sound_exactly (n : Int) : (exactly n).Sound :=
  fun _ mem => absurd mem List.not_mem_nil

theorem unchecked_bind {first : Worked α} {value : α} (h : first.result = some value)
    (next : α → Worked β) :
    (first >>= next).unchecked = first.unchecked ++ (next value).unchecked := by
  change (Worked.bind first next).unchecked = _
  rw [Worked.bind, h]

theorem unchecked_bind_none {first : Worked α} (h : first.result = none) (next : α → Worked β) :
    (first >>= next).unchecked = first.unchecked := by
  change (Worked.bind first next).unchecked = _
  rw [Worked.bind, h]

theorem unchecked_surely_bind (n : Int) (next : Int → Worked β) :
    (surely n >>= next).unchecked = n :: (next n).unchecked := rfl

theorem sound_bind {first : Worked α} {value : α} (h : first.result = some value)
    (next : α → Worked β) : (first >>= next).Sound ↔ first.Sound ∧ (next value).Sound := by
  rw [Sound, unchecked_bind h]
  exact List.forall_mem_append

@[simp] theorem sound_surely_bind (n : Int) (next : Int → Worked β) :
    (surely n >>= next).Sound ↔ Fits n ∧ (next n).Sound := by
  rw [sound_bind rfl]
  exact and_congr_left' List.forall_mem_singleton

@[simp] theorem sound_exactly_bind (n : Int) (next : Int → Worked β) :
    (exactly n >>= next).Sound ↔ (Fits n → (next n).Sound) := by
  by_cases h : Fits n
  · have found : (exactly n).result = some n := if_pos h
    rw [sound_bind found, and_iff_right (sound_exactly n), forall_prop_of_true h]
  · have none : (exactly n).result = none := if_neg h
    rw [Sound, unchecked_bind_none none]
    exact iff_of_true (sound_exactly n) fun fits => absurd fits h

end Worked
end Word

namespace Fraction
open Word

theorem sound_reduce {n d : Int} (hd : 0 < d) (hn : Fits n) (hdf : Fits d) :
    (reduce n d).Sound := by
  rw [reduce]
  split
  · exact Worked.sound_pure _
  split
  · exact Worked.sound_pure _
  have pos := gcd_pos_right n hd.ne'
  have hn' := fits_part pos (Int.gcd_dvd_left n d) hn
  have hd' := fits_part pos (Int.gcd_dvd_right n d) hdf
  have least : d ≠ Int64.minValue.toInt := fun h => absurd (h ▸ hd) (by decide)
  have positive : ¬ d.tdiv (Int.gcd n d) < 0 := Int.not_lt.mpr (Int.tdiv_nonneg hd.le pos.le)
  simp only [divisor, part, Worked.sound_surely_bind, if_neg positive]
  exact ⟨fits_gcd_right n hd.ne' hdf least, hn', hd', Worked.sound_pure _⟩

theorem denominator_ne_least {f : Fraction} (hf : f.WellFormed) :
    f.denominator.toInt ≠ Int64.minValue.toInt :=
  fun h => absurd (h ▸ hf.1) (by decide)

/-- Words are divided across by two common divisors; only the products are asked for. -/
theorem sound_across {a b c d : Int64} {k l : Int} (hk : 0 < k) (hl : 0 < l) (ka : k ∣ a.toInt)
    (lc : l ∣ c.toInt) (lb : l ∣ b.toInt) (kd : k ∣ d.toInt) {next : Int → Int → Worked α}
    (h : ∀ n m, n = a.toInt.tdiv k * c.toInt.tdiv l → m = b.toInt.tdiv l * d.toInt.tdiv k →
      Fits n → Fits m → (next n m).Sound) :
    Worked.Sound (do
      let n ← Worked.exactly ((← part a.toInt k) * (← part c.toInt l))
      let m ← Worked.exactly ((← part b.toInt l) * (← part d.toInt k))
      next n m) := by
  simp only [part, Worked.sound_surely_bind, Worked.sound_exactly_bind]
  refine ⟨fits_part hk ka (fits_toInt a), fits_part hl lc (fits_toInt c), fun fits => ?_⟩
  exact ⟨fits_part hl lb (fits_toInt b), fits_part hk kd (fits_toInt d), h _ _ rfl rfl fits⟩

/-- The greatest common divisors that are divided by are positive, the one of the numerators where
the second fraction is not zero. -/
structure PositiveDivisors (f g : Fraction) : Prop where
  denominators : (0 : Int) < Int.gcd f.denominator.toInt g.denominator.toInt
  first : (0 : Int) < Int.gcd f.numerator.toInt g.denominator.toInt
  second : (0 : Int) < Int.gcd f.denominator.toInt g.numerator.toInt
  numerators : g.numerator.toInt ≠ 0 → (0 : Int) < Int.gcd f.numerator.toInt g.numerator.toInt

section Operations
variable {f g : Fraction} (hf : f.WellFormed) (hg : g.WellFormed)
include hf hg

theorem positiveDivisors : PositiveDivisors f g where
  denominators := gcd_pos_right _ hg.1.ne'
  first := gcd_pos_right _ hg.1.ne'
  second := Int.gcd_comm _ _ ▸ gcd_pos_right _ hf.1.ne'
  numerators := fun hzero => gcd_pos_right _ hzero

theorem sound_combine (op : Int → Int → Int) : (combine op f g).Sound := by
  have pos := (positiveDivisors hf hg).denominators
  simp only [combine, divisor, part, Worked.sound_surely_bind, Worked.sound_exactly_bind,
    part_mul_eq_commonDenominator hf hg]
  refine ⟨fits_gcd_right _ hg.1.ne' (fits_toInt _) (denominator_ne_least hg),
    fits_part pos (Int.gcd_dvd_left _ _) (fits_toInt _), fun common => ⟨?_, fun _ => ⟨?_, ?_⟩⟩⟩
  · exact fits_part hf.1 (Int.dvd_lcm_left _ _) common
  · exact fits_part hg.1 (Int.dvd_lcm_right _ _) common
  · exact fun _ fits => sound_reduce (commonDenominator_pos hf hg) fits common

theorem sound_product : (product f g).Sound := by
  obtain ⟨-, pos, pos', -⟩ := positiveDivisors hf hg
  simp only [product, divisor, Worked.sound_surely_bind]
  refine ⟨fits_gcd_right _ hg.1.ne' (fits_toInt _) (denominator_ne_least hg),
    fits_gcd_left _ hf.1.ne' (fits_toInt _) (denominator_ne_least hf), ?_⟩
  refine sound_across pos pos' (Int.gcd_dvd_left _ _) (Int.gcd_dvd_right _ _) (Int.gcd_dvd_left _ _)
    (Int.gcd_dvd_right _ _) fun n m _ hm => sound_reduce ?_
  rw [hm]
  exact mul_pos (tdiv_pos hf.1 pos' (Int.gcd_dvd_left _ _))
    (tdiv_pos hg.1 pos (Int.gcd_dvd_right _ _))

end Operations

theorem words_of_quotientParts {f g : Fraction} (hf : f.WellFormed) (hg : g.WellFormed)
    (hzero : g.numerator.toInt ≠ 0) {n m : Int}
    (h : (quotientParts f g).result = some (n, m)) : Fits n ∧ Fits m ∧ m ≠ 0 := by
  by_cases hden : f.denominator = g.denominator
  · rw [quotientParts, if_pos (congrArg _ hden)] at h
    cases h
    exact ⟨fits_toInt _, fits_toInt _, hzero⟩
  by_cases hnum : f.numerator = g.numerator
  · rw [quotientParts, if_neg (Int64.toInt_inj.not.mpr hden), if_pos (congrArg _ hnum)] at h
    cases h
    exact ⟨fits_toInt _, fits_toInt _, hf.1.ne'⟩
  obtain ⟨x, y, hy, -, -, -, parts⟩ := exists_quotientParts hf hg hzero hden hnum
  rw [parts] at h
  split at h
  next fits =>
    cases h
    exact ⟨fits.1, fits.2, hy⟩
  next => contradiction

/-- The quotients of zero that go by the greatest common divisor of zero and the least word. -/
def ZeroByLeast (f g : Fraction) : Prop :=
  f.numerator = 0 ∧ g.numerator = Int64.minValue ∧ g.denominator ≠ 1

theorem denominator_of_zero {f : Fraction} (hf : f.WellFormed) (h : f.numerator = 0) :
    f.denominator = 1 := by
  have coprime := hf.2
  have pos := hf.1
  rw [h, Int64.toInt_zero, Int.gcd_zero_left] at coprime
  have one : f.denominator.toInt = 1 := by omega
  exact Int64.toInt_inj.mp one

section Quotient
variable {f g : Fraction} (hf : f.WellFormed) (hg : g.WellFormed) (hzero : g.numerator.toInt ≠ 0)
include hf hg hzero

/-- Behind the greatest common divisor of the numerators everything fits. -/
theorem unchecked_quotientParts (hden : f.denominator ≠ g.denominator)
    (hnum : f.numerator ≠ g.numerator) : ∃ rest, (quotientParts f g).unchecked =
      (Int.gcd f.numerator.toInt g.numerator.toInt : Int) :: rest ∧ ∀ n ∈ rest, Fits n := by
  obtain ⟨pos', -, -, pos⟩ := positiveDivisors hf hg
  have pos := pos hzero
  rw [quotientParts, if_neg (Int64.toInt_inj.not.mpr hden), if_neg (Int64.toInt_inj.not.mpr hnum)]
  refine ⟨_, Worked.unchecked_surely_bind _ _, ?_⟩
  change Worked.Sound _
  simp only [divisor, Worked.sound_surely_bind]
  refine ⟨fits_gcd_right _ hg.1.ne' (fits_toInt _) (denominator_ne_least hg), ?_⟩
  exact sound_across pos pos' (Int.gcd_dvd_left _ _) (Int.gcd_dvd_right _ _) (Int.gcd_dvd_left _ _)
    (Int.gcd_dvd_right _ _) fun n m _ _ _ _ => Worked.sound_pure (n, m)

theorem unchecked_quotient : ∃ more,
    (quotient f g).unchecked = (quotientParts f g).unchecked ++ more ∧ ∀ n ∈ more, Fits n := by
  have hz : g.isZero = false := Bool.eq_false_iff.mpr fun h => hzero (isZero_iff.mp h)
  rw [quotient, hz]
  simp only [Bool.false_eq_true, if_false]
  cases hparts : (quotientParts f g).result with
  | none => exact ⟨[], by rw [Worked.unchecked_bind_none hparts, List.append_nil], by simp⟩
  | some parts =>
    obtain ⟨n, m⟩ := parts
    obtain ⟨hn, hm, hm0⟩ := words_of_quotientParts hf hg hzero hparts
    refine ⟨_, Worked.unchecked_bind hparts _, ?_⟩
    change Worked.Sound _
    dsimp only
    split
    · exact Worked.sound_pure _
    next hn0 =>
    split
    · exact Worked.sound_pure _
    next hnm =>
    have pos := gcd_pos_right n hm0
    simp only [divisor, part, Worked.sound_surely_bind]
    refine ⟨fits_gcd_of_ne hn0 hm0 hnm hn hm, fits_part pos (Int.gcd_dvd_left n m) hn,
      fits_part pos (Int.gcd_dvd_right n m) hm, ?_⟩
    split
    · simp
    · exact Worked.sound_pure _

omit hg in
theorem fits_gcd_numerators (hden : f.denominator ≠ g.denominator)
    (hnum : f.numerator ≠ g.numerator) (h : ¬ ZeroByLeast f g) :
    Fits (Int.gcd f.numerator.toInt g.numerator.toInt) := by
  by_cases zero : f.numerator = 0
  · refine fits_gcd_right _ hzero (fits_toInt _) fun least => h ⟨zero, Int64.toInt_inj.mp least, ?_⟩
    exact fun one => hden ((denominator_of_zero hf zero).trans one.symm)
  · exact fits_gcd_of_ne (Int64.toInt_inj.not.mpr zero) hzero (Int64.toInt_inj.not.mpr hnum)
      (fits_toInt _) (fits_toInt _)

theorem sound_quotientParts (h : ¬ ZeroByLeast f g) :
    (quotientParts f g).Sound := by
  by_cases hden : f.denominator = g.denominator
  · rw [quotientParts, if_pos (congrArg _ hden)]
    exact Worked.sound_pure _
  by_cases hnum : f.numerator = g.numerator
  · rw [quotientParts, if_neg (Int64.toInt_inj.not.mpr hden), if_pos (congrArg _ hnum)]
    exact Worked.sound_pure _
  obtain ⟨rest, unchecked, fits⟩ := unchecked_quotientParts hf hg hzero hden hnum
  rw [Worked.Sound, unchecked, List.forall_mem_cons]
  exact ⟨fits_gcd_numerators hf hzero hden hnum h, fits⟩

end Quotient

theorem sound_quotient {f g : Fraction} (hf : f.WellFormed) (hg : g.WellFormed)
    (h : ¬ ZeroByLeast f g) : (quotient f g).Sound := by
  by_cases hzero : g.numerator.toInt = 0
  · rw [quotient, if_pos (isZero_iff.mpr hzero)]
    exact Worked.sound_giveUp
  · obtain ⟨more, unchecked, fits⟩ := unchecked_quotient hf hg hzero
    rw [Worked.Sound, unchecked, List.forall_mem_append]
    exact ⟨sound_quotientParts hf hg hzero h, fits⟩

theorem unchecked_of_zeroByLeast {f g : Fraction} (hf : f.WellFormed) (hg : g.WellFormed)
    (h : ZeroByLeast f g) : ∃ rest, (quotient f g).unchecked =
      (Int.gcd 0 Int64.minValue.toInt : Int) :: rest ∧ ∀ n ∈ rest, Fits n := by
  obtain ⟨zero, least, ne⟩ := h
  have hzero : g.numerator.toInt ≠ 0 := by
    rw [least]
    decide
  have hden : f.denominator ≠ g.denominator := by
    rw [denominator_of_zero hf zero]
    exact ne.symm
  have hnum : f.numerator ≠ g.numerator := by
    rw [zero, least]
    decide
  obtain ⟨rest, parts, fits⟩ := unchecked_quotientParts hf hg hzero hden hnum
  obtain ⟨more, unchecked, fits'⟩ := unchecked_quotient hf hg hzero
  refine ⟨rest ++ more, ?_, List.forall_mem_append.mpr ⟨fits, fits'⟩⟩
  rw [unchecked, parts, zero, least]
  rfl

theorem sound_quotient_iff {f g : Fraction} (hf : f.WellFormed) (hg : g.WellFormed) :
    (quotient f g).Sound ↔ ¬ ZeroByLeast f g := by
  refine ⟨fun sound h => ?_, sound_quotient hf hg⟩
  obtain ⟨rest, unchecked, -⟩ := unchecked_of_zeroByLeast hf hg h
  rw [Worked.Sound, unchecked, List.forall_mem_cons] at sound
  exact absurd sound.1 (by decide)

theorem zeroByLeast_iff {f g : Fraction} {b : Number} (hg : b.toFraction? = some g) :
    ZeroByLeast f g ↔ f.numerator.toInt = 0 ∧
      ∃ h, b = .fraction h ∧ h.numerator = Int64.minValue ∧ h.denominator ≠ 1 := by
  have zero : f.numerator = 0 ↔ f.numerator.toInt = 0 := Int64.toInt_inj.symm
  rw [ZeroByLeast, zero]
  refine and_congr_right fun _ => ?_
  cases b with
  | integer n =>
    obtain rfl := Option.some.inj hg
    exact iff_of_false (fun h => h.2 rfl) fun ⟨_, h, _⟩ => Number.noConfusion h
  | float => contradiction
  | fraction h =>
    obtain rfl := Option.some.inj hg
    constructor
    · exact fun parts => ⟨h, rfl, parts⟩
    · rintro ⟨_, same, parts⟩
      obtain rfl := Number.fraction.inj same
      exact parts

end Fraction

/-- What fraction arithmetic forms without asking fits in words and is not divided by zero, apart from
the greatest common divisor of zero and the least word in a quotient of zero by a fraction that is
not whole. So nothing else can go wrong unasked when a number is divided by another. -/
theorem overflow_only_of_zero_by_least :
    (∀ f g : Fraction, f.WellFormed → g.WellFormed →
      Fraction.PositiveDivisors f g ∧
      (Fraction.sum f g).Sound ∧ (Fraction.difference f g).Sound ∧ (Fraction.product f g).Sound ∧
      (Fraction.difference (.ofInt64 0) f).Sound ∧
      ((Fraction.quotient f g).Sound ↔
        ¬(f.numerator = 0 ∧ g.numerator = Int64.minValue ∧ g.denominator ≠ 1)) ∧
      (¬(Fraction.quotient f g).Sound → ∃ rest, (Fraction.quotient f g).unchecked =
        (Int.gcd 0 Int64.minValue.toInt : Int) :: rest ∧ ∀ n ∈ rest, Word.Fits n)) ∧
    ∀ (a b : Number) (x y : ℚ), a.Holds x → b.Holds y →
      (y = 0 → a.div b = .error .divisionByZero) ∧
      (y ≠ 0 → ∃ f g, a.toFraction? = some f ∧ b.toFraction? = some g ∧
        a.div b = .ok (((Fraction.quotient f g).result.map .ofFraction).getD
          (.float (a.toFloat / b.toFloat))) ∧
        (¬(Fraction.quotient f g).Sound ↔ x = 0 ∧
          ∃ h, b = .fraction h ∧ h.numerator = Int64.minValue ∧ h.denominator ≠ 1)) := by
  constructor
  · intro f g hf hg
    have quotient := Fraction.sound_quotient_iff hf hg
    refine ⟨Fraction.positiveDivisors hf hg, Fraction.sound_combine hf hg _,
      Fraction.sound_combine hf hg _, Fraction.sound_product hf hg,
      Fraction.sound_combine (Fraction.wellFormed_ofInt64 0) hf _, quotient, fun unsound => ?_⟩
    rw [quotient, not_not] at unsound
    exact Fraction.unchecked_of_zeroByLeast hf hg unsound
  · intro a b x y ha hb
    obtain ⟨f, hf, wf, rfl⟩ := ha.exists_fraction
    obtain ⟨g, hg, wg, rfl⟩ := hb.exists_fraction
    refine ⟨fun hzero => ?_, fun hzero => ⟨f, g, hf, hg, ?_, ?_⟩⟩
    · rw [Number.div, if_pos ((Number.isZero_iff hb).mpr hzero)]
    · rw [Number.div_eq_ok hg wg hzero, Number.viaFractions?_eq hf hg]
      rfl
    · rw [Fraction.sound_quotient_iff wf wg, not_not, Fraction.rational_eq_zero_iff wf]
      exact Fraction.zeroByLeast_iff hg

/-- Zero by the least word is all right, zero by a third of it is not. -/
theorem zero_by_least_third :
    let zero : Fraction := ⟨0, 1⟩
    let least : Fraction := ⟨Int64.minValue, 1⟩
    let third : Fraction := ⟨Int64.minValue, 3⟩
    zero.WellFormed ∧ least.WellFormed ∧ third.WellFormed ∧
      (Fraction.quotient zero least).Sound ∧ ¬(Fraction.quotient zero third).Sound ∧
      (Fraction.quotient third zero).Sound ∧ (Fraction.product zero third).Sound ∧
      (Number.integer 0).Holds 0 ∧ (Number.fraction third).Holds (-9223372036854775808 / 3) ∧
      ∃ f g, (Number.integer 0).toFraction? = some f ∧ (Number.fraction third).toFraction? = some g ∧
        ¬(Fraction.quotient f g).Sound := by
  intro zero least third
  obtain ⟨fractions, numbers⟩ := overflow_only_of_zero_by_least
  have hzero : zero.WellFormed := by decide
  have hleast : least.WellFormed := by decide
  have hthird : third.WellFormed := by decide
  obtain ⟨-, -, -, -, -, whole, -⟩ := fractions zero least hzero hleast
  obtain ⟨-, -, -, product, -, unsound, -⟩ := fractions zero third hzero hthird
  obtain ⟨-, -, -, -, -, refused, -⟩ := fractions third zero hthird hzero
  have holds : (Number.integer 0).Holds 0 := Int.cast_zero
  have holds' : (Number.fraction third).Holds (-9223372036854775808 / 3) :=
    ⟨hthird, by decide +kernel⟩
  obtain ⟨f, g, hf, hg, -, divided⟩ := (numbers _ _ 0 _ holds holds').2 (by decide +kernel)
  exact ⟨hzero, hleast, hthird, whole.mpr (by decide), mt unsound.mp (by decide),
    refused.mpr (by decide), product, holds, holds', f, g, hf, hg,
    divided.mpr ⟨rfl, third, rfl, rfl, by decide⟩⟩

end Reckoner

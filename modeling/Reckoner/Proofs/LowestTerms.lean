import Reckoner.Proofs.Exact

/-! Fractions made one from another. Main statement: every fraction that a sequence of makings comes
to is in lowest terms with a positive denominator, so that fractions are equal exactly if they are
the same rational number. -/
namespace Reckoner

theorem Word.toInt_neg {w : Int64} (h : w ≠ Int64.minValue) : (-w).toInt = -w.toInt := by
  have hlow : w.toInt ≠ -9223372036854775808 := fun h0 => h (Int64.toInt_inj.mp h0)
  obtain ⟨hle, hge⟩ := fits_toInt w
  rw [Int64.toInt_neg]
  exact Int.bmod_eq_of_le (by omega) (by omega)

namespace Fraction
open Word

theorem ofRatio_eq_ok_iff {n d : Int64} (hd : d.toInt ≠ 0) {f : Fraction} :
    ofRatio n d = .ok f ↔ ofRational? (n.toInt / d.toInt) = some f := by
  have hd0 : d ≠ 0 := fun h => hd (congrArg Int64.toInt h)
  rw [ofRatio, if_neg hd0, ofParts?_lowestTerms n.toInt hd]
  cases ofRational? (n.toInt / d.toInt : ℚ) <;> simp

theorem ofRatio_eq_overflow_iff {n d : Int64} (hd : d.toInt ≠ 0) :
    (∃ message, ofRatio n d = .error (.overflow message)) ↔ ¬ Representable (n.toInt / d.toInt) := by
  have hd0 : d ≠ 0 := fun h => hd (congrArg Int64.toInt h)
  rw [ofRatio, if_neg hd0, ofParts?_lowestTerms n.toInt hd, ← ofRational?_eq_none_iff]
  cases ofRational? (n.toInt / d.toInt : ℚ) <;> simp

theorem ofRatio_exact {n d : Int64} {f : Fraction} (h : ofRatio n d = .ok f) :
    f.WellFormed ∧ f.rational = n.toInt / d.toInt := by
  have hd : d.toInt ≠ 0 := by
    intro hd
    rw [ofRatio, if_pos (Int64.toInt_inj.mp hd)] at h
    contradiction
  exact ofRational?_eq_some_iff.mp ((ofRatio_eq_ok_iff hd).mp h)

section Operations
variable {f g r : Fraction} (hf : f.WellFormed)
include hf

theorem inverse_exact (h : f.inverse = .ok r) :
    r.WellFormed ∧ r.rational = (f.rational)⁻¹ := by
  obtain ⟨hd, coprime⟩ := hf
  rw [inverse] at h
  split at h
  · contradiction
  next hzero =>
  split at h
  · contradiction
  next hmin =>
  split at h
  next hpos =>
    obtain rfl := Except.ok.inj h
    refine ⟨⟨Int64.lt_iff_toInt_lt.mp hpos, Int.gcd_comm .. ▸ coprime⟩, ?_⟩
    exact (inv_div _ _).symm
  next hpos =>
    -- both parts change sign, which only the least word does not survive
    obtain rfl := Except.ok.inj h
    have hdmin : f.denominator ≠ Int64.minValue := by
      intro hmin
      rw [hmin] at hd
      exact absurd hd (by decide)
    have hn : f.numerator.toInt ≠ 0 := fun h0 => hzero (isZero_iff.mpr h0)
    have hneg : ¬ 0 < f.numerator.toInt := fun h0 => hpos (Int64.lt_iff_toInt_lt.mpr h0)
    rw [WellFormed, rational, rational, toInt_neg hmin, toInt_neg hdmin]
    refine ⟨⟨by omega, ?_⟩, ?_⟩
    · rw [Int.neg_gcd, Int.gcd_neg, Int.gcd_comm]
      exact coprime
    · push_cast
      rw [neg_div_neg_eq, inv_div]

theorem neg?_exact (h : f.neg? = some r) : r.WellFormed ∧ r.rational = -f.rational := by
  obtain ⟨wf, hr⟩ := sub?_exact (wellFormed_ofInt64 0) hf h
  refine ⟨wf, hr.trans ?_⟩
  simp [rational_ofInt64]

theorem rational_injective (hg : g.WellFormed) (h : f.rational = g.rational) : f = g :=
  Option.some.inj ((ofRational?_eq_some_iff.mpr ⟨hf, h⟩).symm.trans
    (ofRational?_eq_some_iff.mpr ⟨hg, rfl⟩))

end Operations

theorem numerator_ne_zero_of_div? {f g r : Fraction} (h : f.div? g = some r) :
    g.numerator.toInt ≠ 0 := by
  intro h0
  rw [div?, quotient, isZero_iff.mpr h0] at h
  contradiction

/-- A way to make a fraction, from words or from fractions made before. -/
inductive Making where
  | ratio (n d : Int64)
  | whole (n : Int64)
  | inverse (position : Nat)
  | negation (position : Nat)
  | sum (left right : Nat)
  | difference (left right : Nat)
  | product (left right : Nat)
  | quotient (left right : Nat)

namespace Making

/-- The fraction made, if its operands are there and the operation has a result. -/
def result? (made : List Fraction) : Making → Option Fraction
  | ratio n d => (ofRatio n d).toOption
  | whole n => some (ofInt64 n)
  | inverse position => do (← made[position]?).inverse.toOption
  | negation position => do (← made[position]?).neg?
  | sum left right => do (← made[left]?).add? (← made[right]?)
  | difference left right => do (← made[left]?).sub? (← made[right]?)
  | product left right => do (← made[left]?).mul? (← made[right]?)
  | quotient left right => do (← made[left]?).div? (← made[right]?)

def advance (made : List Fraction) (making : Making) : List Fraction :=
  made ++ (making.result? made).toList

/-- All fractions that the makings come to, in order. -/
def run (makings : List Making) : List Fraction := makings.foldl advance []

section Step
variable {made : List Fraction} (wellFormed : ∀ f ∈ made, f.WellFormed)
include wellFormed

theorem wellFormed_of_operand {op : Fraction → Option Fraction} {position : Nat} {r : Fraction}
    (exact : ∀ {f r : Fraction}, f.WellFormed → op f = some r → r.WellFormed)
    (h : (made[position]?.bind op) = some r) : r.WellFormed := by
  obtain ⟨f, hf, hr⟩ := Option.bind_eq_some_iff.mp h
  exact exact (wellFormed f (List.mem_of_getElem? hf)) hr

theorem wellFormed_of_operands {op : Fraction → Fraction → Option Fraction} {left right : Nat}
    {r : Fraction}
    (exact : ∀ {f g r : Fraction}, f.WellFormed → g.WellFormed → op f g = some r → r.WellFormed)
    (h : (made[left]?.bind fun f => made[right]?.bind fun g => op f g) = some r) :
    r.WellFormed := by
  obtain ⟨f, hf, h⟩ := Option.bind_eq_some_iff.mp h
  exact wellFormed_of_operand wellFormed
    (exact (wellFormed f (List.mem_of_getElem? hf))) h

theorem wellFormed_of_result? {making : Making} {r : Fraction}
    (h : making.result? made = some r) : r.WellFormed := by
  cases making with
  | ratio n d => exact (ofRatio_exact (eq_ok_of_toOption h)).1
  | whole n =>
    obtain rfl := Option.some.inj h
    exact wellFormed_ofInt64 n
  | inverse position =>
    exact wellFormed_of_operand wellFormed
      (fun hf hr => (inverse_exact hf (eq_ok_of_toOption hr)).1) h
  | negation position =>
    exact wellFormed_of_operand wellFormed (fun hf hr => (neg?_exact hf hr).1) h
  | sum left right =>
    exact wellFormed_of_operands wellFormed (fun hf hg hr => (add?_exact hf hg hr).1) h
  | difference left right =>
    exact wellFormed_of_operands wellFormed (fun hf hg hr => (sub?_exact hf hg hr).1) h
  | product left right =>
    exact wellFormed_of_operands wellFormed (fun hf hg hr => (mul?_exact hf hg hr).1) h
  | quotient left right =>
    exact wellFormed_of_operands wellFormed
      (fun hf hg hr => (div?_exact hf hg (numerator_ne_zero_of_div? hr) hr).1) h

theorem wellFormed_of_advance (making : Making) : ∀ f ∈ advance made making, f.WellFormed := by
  intro f hf
  rcases List.mem_append.mp hf with hf | hf
  · exact wellFormed f hf
  · exact wellFormed_of_result? wellFormed (Option.mem_toList.mp hf)

theorem wellFormed_of_foldl (makings : List Making) :
    ∀ f ∈ makings.foldl advance made, f.WellFormed := by
  induction makings generalizing made with
  | nil => exact wellFormed
  | cons making rest ih => exact ih (wellFormed_of_advance wellFormed making)

end Step

theorem wellFormed_of_run {makings : List Making} {f : Fraction} (h : f ∈ run makings) :
    f.WellFormed :=
  wellFormed_of_foldl (fun _ mem => absurd mem List.not_mem_nil) makings f h

end Making

/-- Whatever is made of words and of fractions made before is in lowest terms with a positive
denominator, zero as `0 / 1`. So two fractions made are equal exactly if they are the same rational
number. -/
theorem lowestTerms_of_run {makings : List Making} {f : Fraction} (h : f ∈ Making.run makings) :
    1 ≤ f.denominator.toInt ∧ Int.gcd f.numerator.toInt f.denominator.toInt = 1 ∧
      (f.rational = 0 → f = ⟨0, 1⟩) ∧
      ∀ others g, g ∈ Making.run others → (f = g ↔ f.rational = g.rational) := by
  have wf := Making.wellFormed_of_run h
  refine ⟨wf.1, wf.2, fun hzero => ?_, fun others g hg => ⟨congrArg rational, fun heq => ?_⟩⟩
  · refine rational_injective wf (wellFormed_ofInt64 0) (hzero.trans ?_)
    simp [rational]
  · exact rational_injective wf (Making.wellFormed_of_run hg) heq

theorem lowestTerms_of_least_halved :
    let f : Fraction := ⟨4611686018427387904, 1⟩
    f ∈ Making.run [.whole Int64.minValue, .whole (-2), .quotient 0 1] ∧
      1 ≤ f.denominator.toInt ∧ Int.gcd f.numerator.toInt f.denominator.toInt = 1 ∧
      (f.rational = 0 → f = ⟨0, 1⟩) ∧
      ∀ others g, g ∈ Making.run others → (f = g ↔ f.rational = g.rational) := by
  intro f
  have h : f ∈ Making.run [.whole Int64.minValue, .whole (-2), .quotient 0 1] := by
    decide +kernel
  exact ⟨h, lowestTerms_of_run h⟩

end Fraction
end Reckoner

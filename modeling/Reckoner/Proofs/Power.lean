import Mathlib.Algebra.Order.Ring.Abs
import Reckoner.Proofs.Exact

/-! Powers of integers. Main statement: repeated squaring finds the power exactly if it fits, since
whatever is formed on the way is a lower power and fits as well. -/
namespace Reckoner

namespace Word

/-- Below a power that fits all powers fit: each is at most half as large as the next, unless none
exceeds one. -/
theorem fits_pow_of_le {base : Int} {m n : Nat} (hle : m ≤ n) (h : Fits (base ^ n)) :
    Fits (base ^ m) := by
  rcases hle.eq_or_lt with rfl | hlt
  · exact h
  have habs : |base ^ n| ≤ 9223372036854775808 := by
    obtain ⟨hlow, hhigh⟩ := h
    exact abs_le.mpr ⟨hlow, by omega⟩
  rw [abs_pow] at habs
  have hbound : |base ^ m| ≤ 9223372036854775807 := by
    rw [abs_pow]
    rcases lt_or_ge |base| 2 with hsmall | hlarge
    · have hone : |base| ^ m ≤ 1 := pow_le_one₀ (abs_nonneg base) (by omega)
      omega
    · have hdouble : |base| ^ m * 2 ≤ 9223372036854775808 :=
        calc |base| ^ m * 2 ≤ |base| ^ m * |base| := by gcongr
          _ = |base| ^ (m + 1) := (pow_succ _ _).symm
          _ ≤ |base| ^ n := pow_le_pow_right₀ (by omega) hlt
          _ ≤ 9223372036854775808 := habs
      omega
  obtain ⟨hlow, hhigh⟩ := abs_le.mp hbound
  exact ⟨by omega, hhigh⟩

theorem exactly?_of_fits {n : Int} (h : Fits n) : exactly? n = some n := if_pos h

theorem power?_of_fits {base : Int} {exponent : Nat} (h : Fits (base ^ exponent)) :
    power? base exponent = some (base ^ exponent) := by
  induction base, exponent using power?.induct with
  | case1 base => rw [power?, if_pos rfl, pow_zero]
  | case2 base hne => rw [power?, if_neg hne, if_pos rfl, pow_one]
  | case3 base exponent h0 h1 ih =>
    have hsquare : Fits (base * base) := pow_two base ▸ fits_pow_of_le (by omega) h
    have hhalf : Fits ((base * base) ^ (exponent / 2)) := by
      rw [square_pow_half]
      exact fits_pow_of_le (by omega) h
    rw [power?, if_neg h0, if_neg h1, exactly?_of_fits hsquare]
    simp only [Option.bind_eq_bind, Option.bind_some, ih _ hhalf, square_pow_half]
    by_cases hparity : exponent % 2 = 0
    · have hexp : 2 * (exponent / 2) = exponent := by omega
      rw [if_pos hparity, hexp]
    · have hexp : 2 * (exponent / 2) + 1 = exponent := by omega
      rw [if_neg hparity, ← pow_succ', hexp, exactly?_of_fits h]

/-- Asking at the end whether the power fits is as good as asking all along. -/
theorem power?_bind_ofInt? (base : Int) (exponent : Nat) :
    (power? base exponent).bind ofInt? = ofInt? (base ^ exponent) := by
  by_cases h : Fits (base ^ exponent)
  · rw [power?_of_fits h, Option.bind_some]
  · rw [ofInt?_eq_none_iff.mpr h, Option.bind_eq_none_iff]
    intro power hp
    rw [eq_pow_of_power? hp]
    exact ofInt?_eq_none_iff.mpr h

/-- The squares that repeated squaring forms, in order. -/
def squares (base : Int) (exponent : Nat) : List Int :=
  if exponent ≤ 1 then [] else base * base :: squares (base * base) (exponent / 2)

theorem fits_of_mem_squares {base power square : Int} {exponent : Nat}
    (h : power? base exponent = some power) (mem : square ∈ squares base exponent) :
    Fits square := by
  induction base, exponent using squares.induct generalizing power with
  | case1 base exponent hle =>
    rw [squares, if_pos hle] at mem
    contradiction
  | case2 base exponent hgt ih =>
    rw [squares, if_neg hgt] at mem
    rw [power?, if_neg (by omega), if_neg (by omega)] at h
    obtain ⟨first, hfirst, h⟩ := Option.bind_eq_some_iff.mp h
    obtain ⟨hfits, rfl⟩ := exactly?_eq_some_iff.mp hfirst
    obtain ⟨half, hhalf, -⟩ := Option.bind_eq_some_iff.mp h
    rcases List.mem_cons.mp mem with rfl | mem
    · exact hfits
    · exact ih hhalf mem

end Word

namespace Number
open Word

theorem pow_integers (base : Int64) {exponent : Int64} (h : 1 ≤ exponent.toInt) :
    (integer base).pow (integer exponent) =
      ((ofInt? (base.toInt ^ exponent.toInt.toNat)).map integer).getD
        (float (floatOfInt64 base ^ floatOfInt64 exponent)) := by
  have hzero : ¬ (integer exponent).isZero = true := by
    simp only [isZero, decide_eq_true_eq]
    rintro rfl
    contradiction
  have hneg : ¬ exponent < 0 := by
    rw [Int64.lt_iff_toInt_lt]
    exact not_lt.mpr (Int.le_trans Int.one_nonneg h)
  rw [pow, if_neg hzero, if_neg hneg, power?_bind_ofInt?]
  cases ofInt? (base.toInt ^ exponent.toInt.toNat) <;> rfl

end Number

/-- A positive power of an integer is exact if it fits and a float otherwise. No square on the way to
a power that fits is too large; the computation would have been given up there. -/
theorem integer_power_exact_iff (base : Int64) {exponent : Int64} (h : 1 ≤ exponent.toInt) :
    let result : Number := (Number.integer base).pow (.integer exponent)
    let power := base.toInt ^ exponent.toInt.toNat
    let squares := Word.squares base.toInt exponent.toInt.toNat
    (Word.Fits power → ∃ w : Int64, w.toInt = power ∧ result = .integer w) ∧
    (¬ Word.Fits power → result.isFloat = true) ∧
    (Word.Fits power → ∀ square ∈ squares, Word.Fits square) ∧
    ((∃ square ∈ squares, ¬ Word.Fits square) →
      Word.power? base.toInt exponent.toInt.toNat = none) := by
  intro result power squares
  have hresult : result = _ := Number.pow_integers base h
  refine ⟨fun fits => ?_, fun lost => ?_, fun fits square mem => ?_, ?_⟩
  · have hw : (Int64.ofInt power).toInt = power := Word.ofInt?_eq_some_iff.mp (if_pos fits)
    refine ⟨_, hw, ?_⟩
    rw [hresult, Word.ofInt?_eq_some_iff.mpr hw]
    rfl
  · rw [hresult, Word.ofInt?_eq_none_iff.mpr lost]
    rfl
  · exact Word.fits_of_mem_squares (Word.power?_of_fits fits) mem
  · rintro ⟨square, mem, lost⟩
    rw [Option.eq_none_iff_forall_ne_some]
    intro found hfound
    exact lost (Word.fits_of_mem_squares hfound mem)

theorem least_word_as_power :
    1 ≤ (63 : Int64).toInt ∧ Word.Fits ((-2) ^ 63) ∧
      (Number.integer (-2)).pow (.integer 63) = .integer Int64.minValue ∧
      ∀ square ∈ Word.squares (-2) 63, Word.Fits square := by
  have h : 1 ≤ (63 : Int64).toInt := by decide
  have fits : Word.Fits ((-2) ^ 63) := by decide
  obtain ⟨exact, -, squares, -⟩ := integer_power_exact_iff (-2) h
  obtain ⟨w, hw, hpow⟩ := exact fits
  have hleast : w = Int64.minValue := Int64.toInt_inj.mp (hw.trans (by decide))
  exact ⟨h, fits, hleast ▸ hpow, squares fits⟩

end Reckoner

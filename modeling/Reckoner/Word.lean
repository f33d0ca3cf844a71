/-! Integers in 64-bit words: which ones fit, and what can be computed as long as everything fits. -/
namespace Reckoner.Word

def Fits (n : Int) : Prop := -9223372036854775808 ≤ n ∧ n ≤ 9223372036854775807

instance (n : Int) : Decidable (Fits n) := inferInstanceAs (Decidable (_ ∧ _))

def ofInt? (n : Int) : Option Int64 :=
  if Fits n then some (Int64.ofInt n) else none

theorem fits_toInt (w : Int64) : Fits w.toInt := ⟨w.le_toInt, Int.le_of_lt_add_one w.toInt_lt⟩

@[simp] theorem ofInt?_toInt (w : Int64) : ofInt? w.toInt = some w := by
  simp [ofInt?, fits_toInt]

theorem ofInt?_eq_some_iff {n : Int} {w : Int64} : ofInt? n = some w ↔ w.toInt = n := by
  constructor
  · intro h
    unfold ofInt? at h
    split at h
    · rename_i fits
      cases h
      exact Int64.toInt_ofInt_of_le fits.1 (Int.lt_add_one_of_le fits.2)
    · cases h
  · rintro rfl
    exact ofInt?_toInt w

theorem ofInt?_eq_none_iff {n : Int} : ofInt? n = none ↔ ¬ Fits n := by
  simp [ofInt?]

def exactly? (n : Int) : Option Int :=
  if Fits n then some n else none

/-- Powers by repeated squaring, given up as soon as a square or product does not fit. -/
def power? (base : Int) (exponent : Nat) : Option Int :=
  if exponent = 0 then some 1
  else if exponent = 1 then some base
  else do
    let square ← exactly? (base * base)
    let power ← power? square (exponent / 2)
    if exponent % 2 = 0 then some power else exactly? (base * power)

end Reckoner.Word

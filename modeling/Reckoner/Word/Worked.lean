import Reckoner.Word

/-! Computations on words that keep an account of the integers they form. A result that might not
fit is asked for with `exactly` and ends the computation if it does not; one that is believed to fit
is formed with `surely` and noted, so that the belief can be checked. -/
namespace Reckoner.Word

/-- The result, if no step gave up, and the integers formed without asking whether they fit. -/
structure Worked (α : Type) where
  result : Option α
  unchecked : List Int
  deriving Repr

namespace Worked

def pure (value : α) : Worked α := ⟨some value, []⟩

def bind (first : Worked α) (next : α → Worked β) : Worked β :=
  match first.result with
  | none => ⟨none, first.unchecked⟩
  | some value => ⟨(next value).result, first.unchecked ++ (next value).unchecked⟩

instance : Monad Worked where
  pure := Worked.pure
  bind := Worked.bind

def exactly (n : Int) : Worked Int := ⟨exactly? n, []⟩

def surely (n : Int) : Worked Int := ⟨some n, [n]⟩

def giveUp : Worked α := ⟨none, []⟩

/-- Whether everything that was formed without asking did fit. -/
def Sound (work : Worked α) : Prop := ∀ n ∈ work.unchecked, Fits n

instance (work : Worked α) : Decidable work.Sound := inferInstanceAs (Decidable (∀ _ ∈ _, _))

@[simp] theorem result_pure (value : α) : (Pure.pure value : Worked α).result = some value := rfl

@[simp] theorem result_bind (first : Worked α) (next : α → Worked β) :
    (first >>= next).result = first.result.bind fun value => (next value).result := by
  change (Worked.bind first next).result = _
  unfold Worked.bind
  cases first.result <;> rfl

@[simp] theorem result_exactly (n : Int) : (exactly n).result = exactly? n := rfl
@[simp] theorem result_surely (n : Int) : (surely n).result = some n := rfl

end Worked
end Reckoner.Word

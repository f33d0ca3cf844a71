/-! Decimal digits of natural numbers and integers, written and read. Main statement: reading what
was written gives the number back. -/
namespace Reckoner.Numeral

def digit (n : Nat) : Char := Char.ofNat (48 + n % 10)

def digits (n : Nat) : List Char :=
  if n < 10 then [digit n] else digits (n / 10) ++ [digit n]

def paddedDigits (width n : Nat) : List Char :=
  List.replicate (width - (digits n).length) '0' ++ digits n

def natText (n : Nat) : String := String.ofList (digits n)

def intText (n : Int) : String :=
  if n < 0 then "-" ++ natText n.natAbs else natText n.natAbs

def digitValue (c : Char) : Nat := c.toNat - 48

/-- The number that a sequence of digits stands for; 0 if there is none. -/
def value (text : List Char) : Nat :=
  text.foldl (fun n c => 10 * n + digitValue c) 0

theorem digitValue_digit (n : Nat) : digitValue (digit n) = n % 10 :=
  have all : ∀ k < 10, digitValue (Char.ofNat (48 + k)) = k := by decide
  all (n % 10) (Nat.mod_lt n (by decide))

theorem isDigit_digit (n : Nat) : (digit n).isDigit :=
  have all : ∀ k < 10, (Char.ofNat (48 + k)).isDigit := by decide
  all (n % 10) (Nat.mod_lt n (by decide))

theorem digits_ne_nil (n : Nat) : digits n ≠ [] := by
  rw [digits]
  split <;> simp

theorem isDigit_of_mem_digits {n : Nat} {c : Char} (mem : c ∈ digits n) : c.isDigit := by
  fun_induction digits n with
  | case1 n =>
    obtain rfl := List.mem_singleton.mp mem
    exact isDigit_digit n
  | case2 n _ ih =>
    rcases List.mem_append.mp mem with mem | mem
    · exact ih mem
    · obtain rfl := List.mem_singleton.mp mem
      exact isDigit_digit n

@[simp] theorem value_digits (n : Nat) : value (digits n) = n := by
  fun_induction digits n with
  | case1 n small => simp [value, digitValue_digit, Nat.mod_eq_of_lt small]
  | case2 n _ ih =>
    simp only [value, List.foldl_append, List.foldl_cons, List.foldl_nil, digitValue_digit] at ih ⊢
    rw [ih]
    omega

end Reckoner.Numeral

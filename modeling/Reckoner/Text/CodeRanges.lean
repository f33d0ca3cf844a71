/-! Sets of characters given by closed ranges of code points. -/
namespace Reckoner.Text

/-- First and last code point of each range. -/
abbrev CodeRanges := List (Nat × Nat)

def CodeRanges.contains (ranges : CodeRanges) (c : Char) : Bool :=
  ranges.any fun range => range.1 ≤ c.toNat && c.toNat ≤ range.2

end Reckoner.Text

import Reckoner.Text.BreakTables

/-! The part that a character plays where grapheme clusters are cut: its break class, and its role
in a conjunct of an Indic script. Both are decided by the tables, with the Hangul syllables computed
from the layout of their block. -/
namespace Reckoner.Text

inductive BreakClass where
  | carriageReturn | lineFeed | control
  | extend | joiner | spacingMark | prepended
  | regionalIndicator | pictographic
  | leadingJamo | vowelJamo | trailingJamo | openSyllable | closedSyllable
  | other
  deriving DecidableEq, Repr

/-- U+200D, which ties pictographs together and extends every cluster. -/
def zeroWidthJoiner : Char := '\u200d'

/-- U+200C, the one extending character that takes no part in conjuncts. -/
def zeroWidthNonJoiner : Char := '\u200c'

/-- Precomposed Hangul syllables; of each 28 in a row, the first has no trailing consonant. -/
def BreakClass.ofSyllable (c : Char) : BreakClass :=
  if (c.toNat - 0xAC00) % 28 = 0 then .openSyllable else .closedSyllable

def BreakClass.of (c : Char) : BreakClass :=
  if c = '\r' then .carriageReturn
  else if c = '\n' then .lineFeed
  else if 0x20 ≤ c.toNat && c.toNat < 0x7F then .other
  else if c = zeroWidthJoiner then .joiner
  else if 0xAC00 ≤ c.toNat && c.toNat ≤ 0xD7A3 then .ofSyllable c
  else if 0x1F1E6 ≤ c.toNat && c.toNat ≤ 0x1F1FF then .regionalIndicator
  else if BreakTables.control.contains c then .control
  else if BreakTables.extend.contains c then .extend
  else if BreakTables.spacingMark.contains c then .spacingMark
  else if BreakTables.prepended.contains c then .prepended
  else if BreakTables.leadingJamo.contains c then .leadingJamo
  else if BreakTables.vowelJamo.contains c then .vowelJamo
  else if BreakTables.trailingJamo.contains c then .trailingJamo
  else if BreakTables.pictographic.contains c then .pictographic
  else .other

/-- Whether a cluster always ends before and after the character. -/
def BreakClass.isControl : BreakClass → Bool
  | .carriageReturn | .lineFeed | .control => true
  | _ => false

inductive ConjunctRole where
  | consonant | linker | extend | none
  deriving DecidableEq, Repr

def ConjunctRole.of (c : Char) : ConjunctRole :=
  if c.toNat < 0x300 then .none
  else if c = zeroWidthJoiner then .extend
  else if c = zeroWidthNonJoiner then .none
  else if BreakTables.linker.contains c then .linker
  else if BreakTables.consonant.contains c then .consonant
  else if BreakTables.extend.contains c then .extend
  else .none

end Reckoner.Text

/-! Messages that show where in a text something was found. -/
namespace Reckoner.Text

/-- A message, the text that it is about, and a caret below the given column of the text. Both
lines start with a tab; columns count grapheme clusters. -/
def pointAt (message text : String) (column : Nat) : String :=
  message ++ "\nFirst found here:\n\t" ++ text ++ "\n\t" ++ "".pushn ' ' column ++ "^\n"

end Reckoner.Text

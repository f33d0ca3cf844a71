/-! Input read line by line: the bytes of each line end with its line feed, the last line may lack
one. -/
namespace Reckoner.Text

/-- Cuts after every line feed, with the bytes of the open line in reverse. -/
def linesFrom (reversed : List UInt8) : List UInt8 → List (List UInt8)
  | [] => if reversed.isEmpty then [] else [reversed.reverse]
  | byte :: rest =>
    if byte = 0x0A then (byte :: reversed).reverse :: linesFrom [] rest
    else linesFrom (byte :: reversed) rest

def lines (bytes : List UInt8) : List (List UInt8) :=
  linesFrom [] bytes

/-- The text that the bytes encode in UTF-8, if they do. -/
def decode? (bytes : List UInt8) : Option String :=
  String.fromUTF8? ⟨bytes.toArray⟩

end Reckoner.Text

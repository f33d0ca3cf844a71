/-! The symbols besides digits that numerals are written with. A symbol stands for one grapheme
cluster and is compared with it code point by code point. -/
namespace Reckoner

structure Numeral.Symbols where
  point : String
  grouping : List String
  deriving DecidableEq, Repr, Inhabited

namespace Numeral

/-- A grouping symbol spelled like the point would be ambiguous and is dropped, as is an empty
one. -/
def Symbols.ofLists (point : String) (grouping : List String) : Symbols where
  point := point
  grouping := grouping.filter fun symbol => symbol != point && !symbol.isEmpty

def Symbols.standard : Symbols := .ofLists "." ["'", ",", "_"]

def Symbols.isPoint (symbols : Symbols) (cluster : String) : Bool :=
  symbols.point == cluster

def Symbols.isGrouping (symbols : Symbols) (cluster : String) : Bool :=
  symbols.grouping.contains cluster

/-- Whether the cluster is one of the ten ASCII digits, with nothing combined. -/
def isDigit (cluster : String) : Bool :=
  match cluster.toList with
  | [c] => c.isDigit
  | _ => false

theorem Symbols.isGrouping_ofLists {point : String} {grouping : List String} {cluster : String} :
    (ofLists point grouping).isGrouping cluster = true ↔
      cluster ∈ grouping ∧ cluster ≠ point ∧ cluster ≠ "" := by
  simp [isGrouping, ofLists]

end Numeral
end Reckoner

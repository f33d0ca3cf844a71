import Reckoner.Builder
import Reckoner.Session
import Reckoner.Tree.Dump

/-! Calculations: a source taken to its value, with everything that can be seen on the way. The log
lists it in order. -/
namespace Reckoner

structure Calculation where
  source : String
  /-- Where the operations of the tree went, but for the first one. -/
  placements : List Placement
  tree : Except Error Tree
  reductions : List Reduction
  outcome : Except Error Number

namespace Calculation

def ofSource (source : String) (symbols : Numeral.Symbols) : Calculation :=
  let parsed := parse source symbols
  match parsed.tree with
  | .ok tree =>
    let (outcome, session) := (Session.start true).evaluate tree
    ⟨source, parsed.placements, .ok tree, session.steps, outcome⟩
  | .error error => ⟨source, parsed.placements, .error error, [], .error error⟩

def text (calculation : Calculation) : Except Error String :=
  calculation.outcome.map Number.text

end Calculation

/-- How much a log tells; more detail includes all of less. -/
inductive Log.Detail where
  | debug | trace
  deriving DecidableEq, Repr, Inhabited

inductive Log.Entry where
  | placement (p : Placement)
  | tree (source drawing : String)
  | reduction (r : Reduction)
  deriving DecidableEq, Repr

namespace Log

def Entry.detail : Entry → Detail
  | placement _ => .trace
  | tree .. | reduction _ => .debug

def Entry.message : Entry → String
  | placement p => p.text
  | tree source drawing => "expression tree for '" ++ source ++ "':\n" ++ drawing
  | reduction r => "performing operation: " ++ r.text

def Detail.name : Detail → String
  | debug => "DEBUG"
  | trace => "TRACE"

def Detail.shows (detail : Detail) (entry : Entry) : Bool :=
  detail = .trace || entry.detail = .debug

end Log

/-- Everything that happened, in order; the tree is shown only on demand. -/
def Calculation.events (calculation : Calculation) (showTree : Bool) : List Log.Entry :=
  let drawing := match calculation.tree with
    | .ok tree => if showTree then [.tree calculation.source tree.dump] else []
    | .error _ => []
  calculation.placements.map .placement ++ drawing ++ calculation.reductions.map .reduction

def Calculation.log (calculation : Calculation) (detail : Log.Detail) (showTree : Bool) :
    List Log.Entry :=
  (calculation.events showTree).filter detail.shows

end Reckoner

import Reckoner.Reduction

/-! Sessions evaluate one tree after another and may keep the reductions of all of them. What is
kept never influences a value. -/
namespace Reckoner

structure Session where
  recording : Bool
  steps : List Reduction
  deriving DecidableEq, Repr

namespace Session

def start (recording : Bool) : Session := ⟨recording, []⟩

/-- The tree's value, and the session with the reductions that led to it. Those before an error are
kept too. -/
def evaluate (session : Session) (tree : Tree) : Except Error Number × Session :=
  let (steps, outcome) := tree.reduceAll
  (outcome, if session.recording then { session with steps := session.steps ++ steps } else session)

@[simp] theorem outcome_evaluate (session : Session) (tree : Tree) :
    (session.evaluate tree).1 = tree.evaluate := rfl

end Session
end Reckoner

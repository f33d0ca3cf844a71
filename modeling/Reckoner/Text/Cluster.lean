import Reckoner.Text.BreakClass

/-! Extended grapheme clusters: the pieces of a text that a reader takes for one character. A text
is cut by one pass that remembers of the open cluster just what the rules look back at.
Main statement: the clusters concatenate to the text. -/
namespace Reckoner.Text

/-- How far a sequence of pictograph, extending characters and joiner has come. -/
inductive EmojiState where
  | none | pictograph | joined
  deriving DecidableEq, Repr

def EmojiState.push (state : EmojiState) : BreakClass → EmojiState
  | .pictographic => .pictograph
  | .extend => if state = .pictograph then .pictograph else .none
  | .joiner => if state = .pictograph then .joined else .none
  | _ => .none

/-- How far a sequence of consonant, extenders and at least one linker has come. -/
inductive ConjunctState where
  | none | consonant | linked
  deriving DecidableEq, Repr

def ConjunctState.push (state : ConjunctState) : ConjunctRole → ConjunctState
  | .consonant => .consonant
  | .linker => if state = .none then .none else .linked
  | .extend => state
  | .none => .none

/-- What the rules look back at in a cluster that is still open. -/
structure OpenCluster where
  last : BreakClass
  /-- An odd number of regional indicators in a row ends the cluster. -/
  unpaired : Bool
  emoji : EmojiState
  conjunct : ConjunctState
  deriving DecidableEq, Repr

def OpenCluster.start (c : Char) : OpenCluster where
  last := .of c
  unpaired := BreakClass.of c = .regionalIndicator
  emoji := EmojiState.none.push (.of c)
  conjunct := ConjunctState.none.push (.of c)

def OpenCluster.push (cluster : OpenCluster) (c : Char) : OpenCluster where
  last := .of c
  unpaired := BreakClass.of c = .regionalIndicator && !cluster.unpaired
  emoji := cluster.emoji.push (.of c)
  conjunct := cluster.conjunct.push (.of c)

/-- Hangul: a syllable goes on with jamo in the order leading, vowel, trailing. -/
def joinsSyllable : BreakClass → BreakClass → Bool
  | .leadingJamo, .leadingJamo | .leadingJamo, .vowelJamo
  | .leadingJamo, .openSyllable | .leadingJamo, .closedSyllable
  | .openSyllable, .vowelJamo | .openSyllable, .trailingJamo
  | .vowelJamo, .vowelJamo | .vowelJamo, .trailingJamo
  | .closedSyllable, .trailingJamo | .trailingJamo, .trailingJamo => true
  | _, _ => false

def OpenCluster.joins (cluster : OpenCluster) (c : Char) : Bool :=
  let next := BreakClass.of c
  if cluster.last.isControl || next.isControl then
    cluster.last = .carriageReturn && next = .lineFeed
  else
    joinsSyllable cluster.last next
      || next = .extend || next = .joiner || next = .spacingMark
      || cluster.last = .prepended
      || (cluster.conjunct = .linked && ConjunctRole.of c = .consonant)
      || (cluster.emoji = .joined && next = .pictographic)
      || (cluster.unpaired && next = .regionalIndicator)

/-- Cuts `rest`, with the open cluster and its characters, the last one first. -/
def groupFrom (cluster : OpenCluster) (reversed : List Char) : List Char → List (List Char)
  | [] => [reversed.reverse]
  | c :: rest =>
    if cluster.joins c then groupFrom (cluster.push c) (c :: reversed) rest
    else reversed.reverse :: groupFrom (.start c) [c] rest

def group : List Char → List (List Char)
  | [] => []
  | c :: rest => groupFrom (.start c) [c] rest

def clusters (text : String) : List String :=
  (group text.toList).map String.ofList

theorem flatten_groupFrom (cluster : OpenCluster) (reversed rest : List Char) :
    (groupFrom cluster reversed rest).flatten = reversed.reverse ++ rest := by
  induction rest generalizing cluster reversed with
  | nil => simp [groupFrom]
  | cons c rest ih => by_cases h : cluster.joins c <;> simp [groupFrom, h, ih]

@[simp] theorem flatten_group (text : List Char) : (group text).flatten = text := by
  cases text with
  | nil => rfl
  | cons c rest => simp [group, flatten_groupFrom]

theorem ne_nil_of_mem_groupFrom {cluster : OpenCluster} {reversed rest piece : List Char}
    (h : reversed ≠ []) (mem : piece ∈ groupFrom cluster reversed rest) : piece ≠ [] := by
  induction rest generalizing cluster reversed with
  | nil => simp_all [groupFrom]
  | cons c rest ih =>
    rw [groupFrom] at mem
    split at mem
    · exact ih (by simp) mem
    · rcases List.mem_cons.mp mem with rfl | mem
      · simpa using h
      · exact ih (by simp) mem

theorem ne_nil_of_mem_group {text piece : List Char} (mem : piece ∈ group text) :
    piece ≠ [] := by
  cases text with
  | nil => simp [group] at mem
  | cons c rest => exact ne_nil_of_mem_groupFrom (by simp) mem

@[simp] theorem clusters_empty : clusters "" = [] := rfl

end Reckoner.Text

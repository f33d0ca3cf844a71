import Reckoner.Error
import Reckoner.Numeral.Symbols
import Reckoner.Text.Cluster

/-! The scanner cuts a source into tokens, one at a time, and counts the clusters it has passed. A
numeral takes grouping symbols, and the spaces behind them, along. After an error the scanner goes
on from where it stands. Main statement: what is still to be scanned never grows, and shrinks with
every token before the end of input, so that scanning to the end terminates. -/
namespace Reckoner

structure Scanner where
  source : String
  symbols : Numeral.Symbols
  rest : List String
  /-- How many clusters have been passed. -/
  cursor : Nat
  deriving DecidableEq, Repr, Inhabited

namespace Scanner

def ofSource (source : String) (symbols : Numeral.Symbols) : Scanner :=
  ⟨source, symbols, Text.clusters source, 0⟩

def isSpace (cluster : String) : Bool :=
  cluster == " " || cluster == "\t" || cluster == "\n" || cluster == "\r\n"

def isAscii (cluster : String) : Bool :=
  cluster.toList.all fun c => c.toNat < 0x80

def advance (s : Scanner) : Scanner :=
  match s.rest with
  | [] => s
  | _ :: rest => { s with rest := rest, cursor := s.cursor + 1 }

def skips (s : Scanner) (cluster : String) : Bool :=
  isSpace cluster || s.symbols.isGrouping cluster

def skip (s : Scanner) : Scanner :=
  { s with
    rest := s.rest.dropWhile s.skips
    cursor := s.cursor + (s.rest.takeWhile s.skips).length }

/-- Inside a numeral, a grouping symbol takes the spaces and grouping symbols around it along. -/
def skipGroup (s : Scanner) : Scanner :=
  match s.rest with
  | c :: _ => if s.symbols.isGrouping c then s.skip else s
  | [] => s

def report (s : Scanner) (message : String) (shift : Int) : String :=
  Text.pointAt message s.source (s.cursor + shift).toNat

@[simp] theorem symbols_skip (s : Scanner) : s.skip.symbols = s.symbols := rfl

theorem length_skip_le (s : Scanner) : s.skip.rest.length ≤ s.rest.length :=
  (List.dropWhile_sublist _).length_le

theorem length_skipGroup_le (s : Scanner) : s.skipGroup.rest.length ≤ s.rest.length := by
  unfold skipGroup
  repeat' split
  · exact s.length_skip_le
  all_goals exact Nat.le_refl _

theorem length_advance (s : Scanner) : s.advance.rest.length = s.rest.length - 1 := by
  unfold advance
  split <;> simp_all

/-- Reads on in a numeral of which `text` has been read; `pointed` tells that a point is part of it.
The answer is the whole text and whether it has a point, or nothing when a second point is next. -/
def numeral (s : Scanner) (text : String) (pointed : Bool) : Option (String × Bool) × Scanner :=
  match _h : s.rest with
  | [] => (some (text, pointed), s)
  | c :: _ =>
    if Numeral.isDigit c then s.advance.skipGroup.numeral (text ++ c) pointed
    else if s.symbols.isPoint c then
      if pointed then (none, s) else s.advance.skipGroup.numeral (text.push '.') true
    else (some (text, pointed), s)
termination_by s.rest.length
decreasing_by
  all_goals
    have := length_skipGroup_le s.advance
    have := length_advance s
    simp_all only [List.length_cons]
    omega

theorem length_numeral_le (s : Scanner) (text : String) (pointed : Bool) :
    (s.numeral text pointed).2.rest.length ≤ s.rest.length := by
  fun_induction numeral s text pointed with
  | case1 | case3 | case5 => simp
  | case2 s _ _ c _ _ _ ih | case4 s _ c _ _ _ _ _ ih =>
    have := length_skipGroup_le s.advance
    have := length_advance s
    omega

def startsNumeral (s : Scanner) (cluster : String) : Bool :=
  Numeral.isDigit cluster || s.symbols.isPoint cluster

def scanNumeral (s : Scanner) : Except Error Token × Scanner :=
  match s.numeral "" false with
  | (none, stop) =>
    (.error (.malformedNumber (stop.report "two points in one number are not allowed" 0)), stop)
  | (some (text, pointed), stop) =>
    if text = "." then
      (.error (.malformedNumber (stop.report "a number needs at least one digit" (-1))), stop)
    else (.ok ⟨if pointed then .decimal else .integer, text, s.cursor⟩, stop)

/-- The token at the cursor, where no space or grouping symbol stands. -/
def tokenHere (s : Scanner) : Except Error Token × Scanner :=
  match s.rest with
  | [] => (.ok ⟨.endOfInput, "", s.cursor⟩, s)
  | c :: _ =>
    if s.startsNumeral c then s.scanNumeral
    else if isAscii c then (.ok ⟨.ofCluster c, c, s.cursor⟩, s.advance)
    else (.error (.characterTooLarge (s.report "character too large" 0)), s)

/-- The next token, or what is wrong with the source there, and the scanner behind it. A cluster
outside ASCII is never passed; the end of input is found again and again. -/
def next (s : Scanner) : Except Error Token × Scanner :=
  s.skip.tokenHere

theorem kind_ofCluster_ne_endOfInput (cluster : String) :
    Token.Kind.ofCluster cluster ≠ .endOfInput := by
  unfold Token.Kind.ofCluster
  split <;> simp

theorem length_numeral_lt {s : Scanner} {c : String} {rest : List String}
    (here : s.rest = c :: rest) (starts : s.startsNumeral c) (text : String) :
    (s.numeral text false).2.rest.length < s.rest.length := by
  have skipped := length_skipGroup_le s.advance
  have advanced := length_advance s
  have bound (text : String) (pointed : Bool) :=
    length_numeral_le s.advance.skipGroup text pointed
  have pos : 0 < s.rest.length := by simp [here]
  simp only [startsNumeral, Bool.or_eq_true] at starts
  unfold numeral
  split
  · simp_all
  · rename_i c' _ _
    obtain rfl : c = c' := by simp_all
    by_cases digit : Numeral.isDigit c
    · have := bound (text ++ c) false
      simp only [digit, if_true]
      omega
    · have := bound (text.push '.') true
      simp only [digit, starts.resolve_left digit, Bool.false_eq_true, if_true, if_false]
      omega

theorem length_scanNumeral_lt {s : Scanner} {c : String} {rest : List String}
    (here : s.rest = c :: rest) (starts : s.startsNumeral c) :
    s.scanNumeral.2.rest.length < s.rest.length := by
  have := length_numeral_lt here starts ""
  unfold scanNumeral
  split
  · simp_all
  · split <;> simp_all

/-- Every token before the end of input takes at least one cluster. -/
theorem length_tokenHere_lt {s : Scanner} {token : Token} (h : s.tokenHere.1 = .ok token)
    (before : token.kind ≠ .endOfInput) : s.tokenHere.2.rest.length < s.rest.length := by
  unfold tokenHere at h ⊢
  split at h
  · cases h
    simp at before
  · rename_i c rest here
    simp only [here]
    split
    · rename_i starts
      have := length_scanNumeral_lt here starts
      rwa [here] at this
    · split
      · simp [length_advance, here]
      · simp_all

theorem length_next_lt {s : Scanner} {token : Token} (h : s.next.1 = .ok token)
    (before : token.kind ≠ .endOfInput) : s.next.2.rest.length < s.rest.length :=
  Nat.lt_of_lt_of_le (length_tokenHere_lt h before) s.length_skip_le

/-- The tokens up to the end of input or the first error, that last answer, and the scanner behind
it. -/
def scan (s : Scanner) : List Token × Except Error Token × Scanner :=
  match _h : s.next with
  | (.error error, stop) => ([], .error error, stop)
  | (.ok token, stop) =>
    if _before : token.kind = .endOfInput then ([], .ok token, stop)
    else
      let (tokens, last) := stop.scan
      (token :: tokens, last)
termination_by s.rest.length
decreasing_by
  have := @length_next_lt s token (by rw [_h]) _before
  rwa [_h] at this

end Scanner
end Reckoner

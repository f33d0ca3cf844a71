import Reckoner.Proofs.Scan

/-! What a scanner passes with each call, whatever the symbols are. A numeral is cut into pieces: a
digit or point, and the grouping symbols and blanks taken along behind it. Main statements: all that
a call can find, and that calls pass the clusters of the source one behind the other. -/
namespace Reckoner

namespace Numeral.Symbols
variable {symbols : Symbols} {c : String}

/-- Whether tokens leave the cluster out. -/
def drops (symbols : Symbols) (cluster : String) : Bool :=
  Scanner.isSpace cluster || symbols.isGrouping cluster

/-- What tokens write for the cluster. -/
def spell (symbols : Symbols) (cluster : String) : String :=
  if symbols.isPoint cluster && !isDigit cluster then "." else cluster

theorem spell_digit (h : isDigit c) : symbols.spell c = c := by
  simp [spell, h]

theorem spell_point (h : symbols.isPoint c) (hd : isDigit c = false) : symbols.spell c = "." := by
  simp [spell, h, hd]

theorem spell_other (h : symbols.isPoint c = false) : symbols.spell c = c := by
  simp [spell, h]

/-- What a numeral takes along of the clusters behind a digit or point: nothing, if they do not
begin with a grouping symbol. -/
def gap (symbols : Symbols) (clusters : List String) : List String :=
  match clusters with
  | [] => []
  | c :: _ => if symbols.isGrouping c then clusters.takeWhile symbols.drops else []

theorem drops_of_mem_gap {clusters : List String} :
    ∀ c ∈ symbols.gap clusters, symbols.drops c = true := by
  unfold gap
  split
  · simp
  split
  · exact List.all_eq_true.mp List.all_takeWhile
  · simp

end Numeral.Symbols

namespace Scanner

/-- From one scanner to the other, just these clusters are passed. -/
structure Passes (s : Scanner) (passed : List String) (stop : Scanner) : Prop where
  source : stop.source = s.source
  symbols : stop.symbols = s.symbols
  rest : s.rest = passed ++ stop.rest
  cursor : stop.cursor = s.cursor + passed.length

/-- No cluster that tokens leave out comes next. -/
def Settled (s : Scanner) : Prop := ∀ c rest, s.rest = c :: rest → s.symbols.drops c = false

/-- No grouping symbol comes next. -/
def Ungrouped (s : Scanner) : Prop :=
  ∀ c rest, s.rest = c :: rest → s.symbols.isGrouping c = false

section Passes
variable {s t u : Scanner} {c : String} {passed more rest : List String}

theorem Passes.refl (s : Scanner) : s.Passes [] s := ⟨rfl, rfl, rfl, rfl⟩

theorem Passes.trans (first : s.Passes passed t) (second : t.Passes more u) :
    s.Passes (passed ++ more) u where
  source := second.source.trans first.source
  symbols := second.symbols.trans first.symbols
  rest := by rw [first.rest, second.rest, List.append_assoc]
  cursor := by rw [second.cursor, first.cursor, List.length_append, Nat.add_assoc]

theorem Passes.exists_cons (h : s.Passes passed t) (here : s.rest = c :: rest)
    (less : t.rest.length < s.rest.length) : ∃ more, passed = c :: more := by
  have hrest := h.rest
  cases passed with
  | nil =>
    rw [hrest] at less
    exact absurd less (Nat.lt_irrefl _)
  | cons d more =>
    rw [here, List.cons_append] at hrest
    exact ⟨more, by rw [List.head_eq_of_cons_eq hrest]⟩

theorem Settled.ungrouped (h : s.Settled) : s.Ungrouped := by
  intro c rest here
  exact (Bool.or_eq_false_iff.mp (h c rest here)).2

theorem passes_skip (s : Scanner) : s.Passes (s.rest.takeWhile s.skips) s.skip :=
  ⟨rfl, rfl, List.takeWhile_append_dropWhile.symm, rfl⟩

theorem drops_of_mem_skipped : ∀ d ∈ s.rest.takeWhile s.skips, s.symbols.drops d = true :=
  List.all_eq_true.mp List.all_takeWhile

theorem settled_skip (s : Scanner) : s.skip.Settled := by
  intro c rest here
  have h := List.head?_dropWhile_not s.skips s.rest
  change s.rest.dropWhile s.skips = c :: rest at here
  rwa [here] at h

theorem skip_eq_self (h : s.Settled) : s.skip = s := by
  have none : s.rest.takeWhile s.skips = [] := by
    cases here : s.rest with
    | nil => rfl
    | cons c rest =>
      have kept : s.skips c = false := h c rest here
      exact List.takeWhile_cons_of_neg (by simp [kept])
  have all := @List.takeWhile_append_dropWhile _ s.skips s.rest
  rw [none, List.nil_append] at all
  unfold skip
  rw [none, all]
  rfl

theorem passes_advance (here : s.rest = c :: rest) : s.Passes [c] s.advance := by
  unfold advance
  rw [here]
  exact ⟨rfl, rfl, here, rfl⟩

theorem passes_skipGroup (s : Scanner) : s.Passes (s.symbols.gap s.rest) s.skipGroup := by
  unfold skipGroup Numeral.Symbols.gap
  cases here : s.rest with
  | nil => exact .refl s
  | cons c rest =>
    dsimp only
    split
    · rw [← here]
      exact s.passes_skip
    · exact .refl s

theorem ungrouped_skipGroup (s : Scanner) : s.skipGroup.Ungrouped := by
  unfold skipGroup
  split
  next c rest here =>
    split
    · exact s.settled_skip.ungrouped
    next h =>
      intro d more hd
      obtain ⟨rfl, -⟩ := List.cons.inj (here.symm.trans hd)
      exact Bool.eq_false_iff.mpr h
  next here =>
    intro d more hd
    exact absurd (here.symm.trans hd) (by simp)

@[simp] theorem symbols_advance (s : Scanner) : s.advance.symbols = s.symbols := by
  unfold advance
  split <;> rfl

end Passes

end Scanner

/-- A digit or point of a numeral, and what is taken along behind it. -/
structure Numeral.Piece where
  cluster : String
  gap : List String

namespace Numeral

def Piece.clusters (p : Piece) : List String := p.cluster :: p.gap

/-- A piece that is no digit is a point. -/
def Piece.isPoint (p : Piece) : Bool := !isDigit p.cluster

/-- What the pieces of a numeral are written as. -/
def Symbols.written (symbols : Symbols) (pieces : List Piece) : String :=
  String.join (pieces.map fun p => symbols.spell p.cluster)

@[simp] theorem Symbols.written_nil (symbols : Symbols) : symbols.written [] = "" := rfl

theorem Symbols.written_cons (symbols : Symbols) (p : Piece) (pieces : List Piece) :
    symbols.written (p :: pieces) = symbols.spell p.cluster ++ symbols.written pieces := by
  rw [written, List.map_cons, String.join_cons]
  rfl

/-- Pieces of a numeral before the given clusters. -/
inductive Cut (symbols : Symbols) : List Piece → List String → Prop
  | nil (rest : List String) : Cut symbols [] rest
  | cons {p : Piece} {pieces : List Piece} {rest : List String}
      (starts : isDigit p.cluster = true ∨ symbols.isPoint p.cluster = true)
      (kept : symbols.isGrouping p.cluster = false)
      (gap : symbols.gap (p.gap ++ (pieces.flatMap Piece.clusters ++ rest)) = p.gap)
      (others : Cut symbols pieces rest) : Cut symbols (p :: pieces) rest

variable {symbols : Symbols} {p : Piece} {pieces : List Piece} {rest : List String}

theorem Cut.exists_char (h : Cut symbols (p :: pieces) rest) :
    ∃ c, (symbols.spell p.cluster).toList = [c] ∧ (p.isPoint = true ↔ c = '.') := by
  obtain - | ⟨starts, -, -, -⟩ := h
  cases digit : isDigit p.cluster with
  | true =>
    obtain ⟨c, hc, hd⟩ := exists_digit_of_isDigit digit
    refine ⟨c, by rw [Symbols.spell_digit digit, hc], ?_⟩
    simpa [Piece.isPoint, digit] using ne_point_of_isDigit hd
  | false =>
    have point := starts.resolve_left (Bool.eq_false_iff.mp digit)
    exact ⟨'.', by rw [Symbols.spell_point point digit]; rfl, by simp [Piece.isPoint, digit]⟩

theorem Cut.eq_nil_of_written (h : Cut symbols (p :: pieces) rest)
    (written : symbols.written (p :: pieces) = ".") : p.isPoint = true ∧ pieces = [] := by
  obtain ⟨c, hc, point⟩ := h.exists_char
  have hlist : c :: (symbols.written pieces).toList = ['.'] := by
    rw [← List.singleton_append, ← hc, ← String.toList_append, ← Symbols.written_cons, written]
    rfl
  obtain ⟨hpoint, hrest⟩ := List.cons.inj hlist
  refine ⟨point.mpr hpoint, ?_⟩
  obtain - | ⟨-, -, -, others⟩ := h
  cases pieces with
  | nil => rfl
  | cons q more =>
    obtain ⟨d, hd, -⟩ := others.exists_char
    rw [Symbols.written_cons, String.toList_append, hd] at hrest
    contradiction

end Numeral

namespace Scanner
open Numeral (Piece Cut)

/-- Reading on in a numeral passes these pieces. The numeral ends behind them, or a second point
comes next. -/
structure Gathers (s : Scanner) (text : String) (pointed : Bool) (pieces : List Piece)
    (read : Option (String × Bool) × Scanner) : Prop where
  passed : s.Passes (pieces.flatMap Piece.clusters) read.2
  cut : Cut s.symbols pieces read.2.rest
  whole : ∀ result, read.1 = some result → result.1 = text ++ s.symbols.written pieces ∧
    pieces.countP Piece.isPoint + pointed.toNat = result.2.toNat ∧
    ∀ c ∈ read.2.rest.head?, Numeral.isDigit c = false ∧ s.symbols.isPoint c = false
  second : read.1 = none → pieces.countP Piece.isPoint + pointed.toNat = 1 ∧
    ∃ c ∈ read.2.rest.head?, Numeral.isDigit c = false ∧ s.symbols.isPoint c = true

section Numeral
variable {s : Scanner} {c : String} {rest : List String}

theorem Gathers.cons {text : String} {pointed : Bool} (after : Bool)
    {read : Option (String × Bool) × Scanner} (here : s.rest = c :: rest) (ungrouped : s.Ungrouped)
    (starts : Numeral.isDigit c = true ∨ s.symbols.isPoint c = true)
    (points : (!Numeral.isDigit c).toNat + pointed.toNat = after.toNat)
    (h : ∃ pieces, s.advance.skipGroup.Gathers (text ++ s.symbols.spell c) after pieces read) :
    ∃ pieces, s.Gathers text pointed pieces read := by
  obtain ⟨pieces, passed, cut, whole, second⟩ := h
  have skipped := s.advance.passes_skipGroup
  have step := (passes_advance here).trans skipped
  rw [step.symbols] at cut whole second
  have taken := skipped.rest
  rw [passed.rest, symbols_advance] at taken
  rw [symbols_advance] at step
  generalize hgap : s.symbols.gap s.advance.rest = gap at step taken
  rw [taken] at hgap
  have count : (Piece.mk c gap :: pieces).countP Piece.isPoint + pointed.toNat =
      pieces.countP Piece.isPoint + after.toNat := by
    rw [List.countP_cons, ← points, Piece.isPoint]
    cases Numeral.isDigit c with
    | true => simp
    | false =>
      simp only [Bool.not_false, if_true, Bool.toNat_true]
      omega
  refine ⟨⟨c, gap⟩ :: pieces, step.trans passed,
    .cons starts (ungrouped c rest here) hgap cut, ?_, ?_⟩
  · intro result hr
    rw [count, Numeral.Symbols.written_cons, ← String.append_assoc]
    exact whole result hr
  · intro hr
    rw [count]
    exact second hr

theorem gathers_numeral (ungrouped : s.Ungrouped) (text : String) (pointed : Bool) :
    ∃ pieces, s.Gathers text pointed pieces (s.numeral text pointed) := by
  fun_induction numeral s text pointed with
  | case1 s text pointed here =>
    refine ⟨[], .refl s, .nil _, ?_, by simp⟩
    rintro _ ⟨⟩
    simp [here]
  | case2 s text pointed c rest here digit ih =>
    refine Gathers.cons pointed here ungrouped (.inl digit) (by simp [digit]) ?_
    rw [Numeral.Symbols.spell_digit digit]
    exact ih s.advance.ungrouped_skipGroup
  | case3 s text c rest here digit point =>
    exact ⟨[], .refl s, .nil _, by simp, fun _ => ⟨rfl, c, by simp [here], by simpa using digit,
      point⟩⟩
  | case4 s text pointed c rest here digit point pointed' ih =>
    refine Gathers.cons true here ungrouped (.inr point) (by simp_all) ?_
    rw [Numeral.Symbols.spell_point point (Bool.eq_false_iff.mpr digit)]
    exact ih s.advance.ungrouped_skipGroup
  | case5 s text pointed c rest here digit point =>
    refine ⟨[], .refl s, .nil _, ?_, by simp⟩
    rintro _ ⟨⟩
    simp [here, digit, point]

theorem Gathers.exists_cons {text : String} {pointed : Bool} {pieces : List Piece}
    {read : Option (String × Bool) × Scanner} (h : s.Gathers text pointed pieces read)
    (here : s.rest = c :: rest) (less : read.2.rest.length < s.rest.length) :
    ∃ gap more, pieces = ⟨c, gap⟩ :: more := by
  obtain ⟨_, passed⟩ := h.passed.exists_cons here less
  cases pieces with
  | nil => contradiction
  | cons p more =>
    rw [List.flatMap_cons, Piece.clusters, List.cons_append] at passed
    exact ⟨p.gap, more, by rw [← List.head_eq_of_cons_eq passed]⟩

/-- All that can be found where no blank or grouping symbol comes next. -/
inductive Finds (s : Scanner) : Except Error Token × Scanner → Prop
  | endOfInput (here : s.rest = []) : Finds s (.ok ⟨.endOfInput, "", s.cursor⟩, s)
  | symbol {c : String} {rest : List String} (here : s.rest = c :: rest)
      (other : s.startsNumeral c = false) (ascii : isAscii c = true) :
      Finds s (.ok ⟨.ofCluster c, c, s.cursor⟩, s.advance)
  | numeral {p : Piece} {pieces : List Piece} {pointed : Bool} {stop : Scanner}
      (gathers : s.Gathers "" false (p :: pieces)
        (some (s.symbols.written (p :: pieces), pointed), stop)) :
      Finds s (.ok ⟨if pointed then .decimal else .integer, s.symbols.written (p :: pieces),
        s.cursor⟩, stop)
  | foreign {c : String} {rest : List String} (here : s.rest = c :: rest)
      (other : s.startsNumeral c = false) (foreign : isAscii c = false) :
      Finds s (.error (.characterTooLarge (s.report "character too large" 0)), s)
  | secondPoint {pieces : List Piece} {stop : Scanner}
      (gathers : s.Gathers "" false pieces (none, stop)) :
      Finds s (.error (.malformedNumber (stop.report "two points in one number are not allowed" 0)),
        stop)
  | lonePoint {p : Piece} {stop : Scanner} (point : p.isPoint = true)
      (gathers : s.Gathers "" false [p] (some (".", true), stop)) :
      Finds s (.error (.malformedNumber (stop.report "a number needs at least one digit" (-1))),
        stop)

theorem finds_scanNumeral (ungrouped : s.Ungrouped) (here : s.rest = c :: rest)
    (starts : s.startsNumeral c = true) : s.Finds s.scanNumeral := by
  have less := length_numeral_lt here starts ""
  obtain ⟨pieces, gathers⟩ := gathers_numeral ungrouped "" false
  unfold scanNumeral
  generalize s.numeral "" false = read at less gathers ⊢
  obtain ⟨_ | ⟨text, pointed⟩, stop⟩ := read
  · exact .secondPoint gathers
  obtain ⟨gap, more, rfl⟩ := gathers.exists_cons here less
  obtain ⟨rfl, count, -⟩ := gathers.whole _ rfl
  rw [String.empty_append] at gathers ⊢
  dsimp only
  split
  next h =>
    obtain ⟨point, rfl⟩ := gathers.cut.eq_nil_of_written h
    obtain rfl : pointed = true := by
      cases pointed with
      | true => rfl
      | false => simp [point] at count
    rw [h] at gathers
    exact .lonePoint point gathers
  next => exact .numeral gathers

theorem finds_tokenHere (ungrouped : s.Ungrouped) : s.Finds s.tokenHere := by
  unfold tokenHere
  split
  next here => exact .endOfInput here
  next c rest here =>
    split
    next starts => exact finds_scanNumeral ungrouped here starts
    next starts =>
      have other := Bool.eq_false_iff.mpr starts
      split
      next ascii => exact .symbol here other ascii
      next ascii => exact .foreign here other (Bool.eq_false_iff.mpr ascii)

/-- A call passes what tokens leave out and finds what comes next. -/
theorem finds_next (s : Scanner) : s.skip.Finds s.next :=
  finds_tokenHere s.settled_skip.ungrouped

theorem end_of_next {token : Token} {stop : Scanner} (h : s.next = (.ok token, stop))
    (ended : token.kind = .endOfInput) : stop = s.skip ∧ s.skip.rest = [] := by
  have found := s.finds_next
  rw [h] at found
  cases found with
  | endOfInput here => exact ⟨rfl, here⟩
  | symbol => exact absurd ended (kind_ofCluster_ne_endOfInput _)
  | @numeral p pieces pointed => cases pointed <;> contradiction

theorem Finds.exists_passes {answer : Except Error Token × Scanner} (h : s.Finds answer) :
    ∃ passed, s.Passes passed answer.2 := by
  cases h with
  | endOfInput | foreign => exact ⟨[], .refl s⟩
  | symbol here => exact ⟨_, passes_advance here⟩
  | numeral gathers | secondPoint gathers | lonePoint _ gathers => exact ⟨_, gathers.passed⟩

/-- The token that begins with the first of these clusters, which tokens do not leave out; where no
cluster is left that is the end of input. -/
inductive Begins (symbols : Numeral.Symbols) (token : Token) : List String → Prop
  | endOfInput (kind : token.kind = .endOfInput) (text : token.text = "") :
      Begins symbols token []
  | cluster {c more : String} {rest : List String} (kept : symbols.drops c = false)
      (kind : token.kind ≠ .endOfInput) (text : token.text = symbols.spell c ++ more) :
      Begins symbols token (c :: rest)

theorem Finds.begins {token : Token} {stop : Scanner} (h : s.Finds (.ok token, stop))
    (settled : s.Settled) : token.column = s.cursor ∧ Begins s.symbols token s.rest := by
  cases h with
  | endOfInput here =>
    rw [here]
    exact ⟨rfl, .endOfInput rfl rfl⟩
  | @symbol c rest here other ascii =>
    have text : c = s.symbols.spell c ++ "" := by
      rw [Numeral.Symbols.spell_other (Bool.or_eq_false_iff.mp other).2, String.append_empty]
    rw [here]
    exact ⟨rfl, .cluster (settled c rest here) (kind_ofCluster_ne_endOfInput c) text⟩
  | @numeral p pieces pointed stop gathers =>
    have here := gathers.passed.rest
    rw [List.flatMap_cons, Piece.clusters, List.cons_append, List.cons_append] at here
    rw [here]
    refine ⟨rfl, .cluster (settled _ _ here) ?_ (Numeral.Symbols.written_cons ..)⟩
    cases pointed <;> simp

/-- The scanner behind so many calls. -/
def after (s : Scanner) : Nat → Scanner
  | 0 => s
  | calls + 1 => s.next.2.after calls

theorem exists_passes_next (s : Scanner) : ∃ passed, s.Passes passed s.next.2 := by
  obtain ⟨passed, h⟩ := s.finds_next.exists_passes
  exact ⟨_, s.passes_skip.trans h⟩

theorem exists_passes_after (s : Scanner) (calls : Nat) :
    ∃ passed, s.Passes passed (s.after calls) := by
  induction calls generalizing s with
  | zero => exact ⟨[], .refl s⟩
  | succ calls ih =>
    obtain ⟨first, hfirst⟩ := s.exists_passes_next
    obtain ⟨others, hothers⟩ := ih s.next.2
    exact ⟨first ++ others, hfirst.trans hothers⟩

theorem next_after_of_scan {tokens more : List Token} {token : Token}
    (h : s.scan.1 ++ s.scan.2.1.toOption.toList = tokens ++ token :: more) :
    (s.after tokens.length).next.1 = .ok token := by
  fun_induction scan s generalizing tokens with
  | case1 => exact absurd h (by simp [Except.toOption])
  | case2 s last stop hn =>
    cases tokens with
    | nil =>
      obtain ⟨rfl, -⟩ := List.cons.inj h
      rw [List.length_nil, after, hn]
    | cons => simp [Except.toOption] at h
  | case3 s found stop hn hbefore others last hs ih =>
    rw [hs] at ih
    cases tokens with
    | nil =>
      obtain ⟨rfl, -⟩ := List.cons.inj h
      rw [List.length_nil, after, hn]
    | cons head tokens =>
      have h' := ih (List.cons.inj h).2
      rwa [List.length_cons, after, hn]

end Numeral
end Scanner
end Reckoner

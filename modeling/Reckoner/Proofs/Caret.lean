import Reckoner.Proofs.Outcome

/-! Where messages point. Main statements: the caret of a scanner's message stands under the cluster
that the scanner cannot take, or under the last one taken along behind a point without digits; the
caret of a complaint about a token stands under the cluster that the token begins with. -/
namespace Reckoner

namespace Text

/-- How many spaces stand between the tab and the caret of the last line. -/
def caretColumn? (message : String) : Option Nat :=
  match message.toList.reverse with
  | '\n' :: '^' :: rest =>
    match rest.dropWhile (· == ' ') with
    | '\t' :: '\n' :: _ => some (rest.takeWhile (· == ' ')).length
    | _ => none
  | _ => none

theorem toList_pushn (text : String) (c : Char) (n : Nat) :
    (text.pushn c n).toList = text.toList ++ List.replicate n c := by
  unfold String.pushn
  induction n with
  | zero => exact (List.append_nil _).symm
  | succ n ih =>
    rw [Nat.repeat, String.toList_push, ih, List.append_assoc, ← List.replicate_succ']

theorem caretColumn?_pointAt (message text : String) (column : Nat) :
    caretColumn? (pointAt message text column) = some column := by
  have spaces : ∀ c ∈ List.replicate column ' ', (c == ' ') = true := fun c mem =>
    beq_iff_eq.mpr (List.eq_of_mem_replicate mem)
  have reversed : (pointAt message text column).toList.reverse = '\n' :: '^' ::
      (List.replicate column ' ' ++ '\t' :: '\n' ::
        (message ++ "\nFirst found here:\n\t" ++ text).toList.reverse) := by
    simp [pointAt, toList_pushn]
  unfold caretColumn?
  rw [reversed]
  simp only [List.dropWhile_append_of_pos spaces, List.takeWhile_append_of_pos spaces]
  simp

end Text

namespace Scanner
open Numeral (Piece Cut)
variable {s : Scanner}

theorem caretColumn?_report (s : Scanner) (message : String) (shift : Int) :
    Text.caretColumn? (s.report message shift) = some (s.cursor + shift).toNat :=
  Text.caretColumn?_pointAt ..

/-- A cluster that cannot be taken, among those from the start of a token on: the kind of error, the
index of the cluster, and what has been taken along behind it. -/
inductive Offence (symbols : Numeral.Symbols) :
    List String → (String → Error) → Nat → List String → Prop
  | foreign {c : String} {rest : List String} (kept : symbols.drops c = false)
      (digit : Numeral.isDigit c = false) (point : symbols.isPoint c = false)
      (foreign : isAscii c = false) : Offence symbols (c :: rest) .characterTooLarge 0 []
  | secondPoint {pieces : List Piece} {c : String} {rest : List String}
      (cut : Cut symbols pieces (c :: rest)) (once : pieces.countP Piece.isPoint = 1)
      (digit : Numeral.isDigit c = false) (point : symbols.isPoint c = true) :
      Offence symbols (pieces.flatMap Piece.clusters ++ c :: rest) .malformedNumber
        (pieces.flatMap Piece.clusters).length []
  | lonePoint {p : Piece} {rest : List String} (cut : Cut symbols [p] rest)
      (point : p.isPoint = true)
      (ended : ∀ c ∈ rest.head?, Numeral.isDigit c = false ∧ symbols.isPoint c = false) :
      Offence symbols (p.clusters ++ rest) .malformedNumber 0 p.gap

/-- A failing call finds an offending cluster and points at it, or at the last one taken along
behind it. -/
theorem Finds.offence {stop : Scanner} {error : Error} (h : s.Finds (.error error, stop))
    (settled : s.Settled) :
    ∃ make message index behind, Offence s.symbols s.rest make index behind ∧
      error = make message ∧
      Text.caretColumn? message = some (s.cursor + index + behind.length) := by
  cases h with
  | foreign here other foreign =>
    obtain ⟨digit, point⟩ := Bool.or_eq_false_iff.mp other
    rw [here]
    exact ⟨_, _, _, _, .foreign (settled _ _ here) digit point foreign, rfl,
      caretColumn?_report ..⟩
  | @secondPoint pieces stop gathers =>
    obtain ⟨once, c, next, digit, point⟩ := gathers.second rfl
    obtain ⟨rest, here⟩ := List.head?_eq_some_iff.mp next
    have cut := gathers.cut
    rw [here] at cut
    rw [gathers.passed.rest, here]
    refine ⟨_, _, _, _, .secondPoint cut once digit point, rfl, ?_⟩
    rw [caretColumn?_report, gathers.passed.cursor]
    rfl
  | @lonePoint p stop point gathers =>
    have ended := (gathers.whole _ rfl).2.2
    have passed := gathers.passed
    rw [List.flatMap_singleton] at passed
    rw [passed.rest]
    refine ⟨_, _, _, _, .lonePoint gathers.cut point ended, rfl, ?_⟩
    rw [caretColumn?_report, passed.cursor, Numeral.Piece.clusters, List.length_cons]
    congr 1
    omega

theorem exists_start (source : String) (symbols : Numeral.Symbols) (calls : Nat) :
    ∃ passed, let start := ((ofSource source symbols).after calls).skip
      Text.clusters source = passed ++ start.rest ∧ start.cursor = passed.length ∧
        start.symbols = symbols := by
  obtain ⟨passed, reached⟩ := (ofSource source symbols).exists_passes_after calls
  have started := reached.trans ((ofSource source symbols).after calls).passes_skip
  exact ⟨_, started.rest, started.cursor.trans (Nat.zero_add _), started.symbols⟩

end Scanner

/-- A call that fails points at the cluster that cannot be taken: one outside ASCII, or the second
point of a numeral. Only behind a point without digits the caret is moved on, to the last of the
clusters taken along with that point. -/
theorem caret_of_failed_call {source : String} {symbols : Numeral.Symbols} {calls : Nat}
    {error : Error}
    (failed : ((Scanner.ofSource source symbols).after calls).next.1 = .error error) :
    ∃ passed ahead make message index behind,
      Text.clusters source = passed ++ ahead ∧
      passed.length = ((Scanner.ofSource source symbols).after calls).skip.cursor ∧
      Scanner.Offence symbols ahead make index behind ∧ error = make message ∧
      Text.caretColumn? message = some (passed.length + index + behind.length) := by
  obtain ⟨passed, split, cursor, same⟩ := Scanner.exists_start source symbols calls
  generalize (Scanner.ofSource source symbols).after calls = s at failed split cursor same ⊢
  have found := s.finds_next
  rw [← Prod.eta s.next, failed] at found
  obtain ⟨make, message, index, behind, offence, made, caret⟩ := found.offence s.settled_skip
  rw [same] at offence
  rw [cursor] at caret
  exact ⟨_, _, make, message, index, behind, split, cursor.symm, offence, made, caret⟩

/-- The numeral takes the comma and the tab along, so that the point in column 9 is its second. -/
theorem caret_under_second_point :
    let s := (Scanner.ofSource "7-3'0.5,\t.2" .standard).after 2
    ∃ error, s.next.1 = .error error ∧ Text.caretColumn? error.message = some 9 ∧
      ∃ passed ahead make message index behind,
        Text.clusters "7-3'0.5,\t.2" = passed ++ ahead ∧ passed.length = s.skip.cursor ∧
        Scanner.Offence .standard ahead make index behind ∧ error = make message ∧
        Text.caretColumn? message = some (passed.length + index + behind.length) := by
  intro s
  have failed : s.next.1 = .error (.malformedNumber (Text.pointAt
      "two points in one number are not allowed" "7-3'0.5,\t.2" 9)) :=
    eq_error_of_of? (by decide +kernel)
  exact ⟨_, failed, Text.caretColumn?_pointAt .., caret_of_failed_call failed⟩

/-- The lone point is the first cluster, but the caret stands under the comma taken along with it. -/
theorem caret_beside_lone_point :
    ∃ error, (Scanner.ofSource ".," .standard).next.1 = .error error ∧
      Scanner.Offence .standard (Text.clusters ".,") .malformedNumber 0 [","] ∧
      Text.caretColumn? error.message = some 1 := by
  refine ⟨.malformedNumber (Text.pointAt "a number needs at least one digit" ".," 1),
    eq_error_of_of? (by decide +kernel), ?_, Text.caretColumn?_pointAt ..⟩
  have clusters : Text.clusters ".," = Numeral.Piece.clusters ⟨".", [","]⟩ ++ [] := by decide +kernel
  rw [clusters]
  have cut : Numeral.Cut .standard [⟨".", [","]⟩] [] :=
    .cons (.inr (by decide)) (by decide) (by decide +kernel) (.nil _)
  exact .lonePoint cut (by decide) (by simp)

section Parse
open Reckoner.Language
variable {source : String} {symbols : Numeral.Symbols}

theorem takeAll_start {tokens : List Token} {s : Stack} (h : Stack.start.takeAll tokens = some s)
    (source : String) : ((Builder.start source).takeAll tokens).1 = .ok () := by
  obtain ⟨placements, taken⟩ := Stack.takeAll_builder Stack.stacked_start source [] h
  exact congrArg Prod.fst taken

/-- The complaint about an unexpected token tells its text and kind and points at the cluster that
the token begins with, or behind the last cluster for the end of input. The tokens before it have
been taken, and could go on to a sentence; with this one they cannot. -/
theorem unexpected_points_at_token {text message : String} {found : Token.Kind}
    {expected : List Token.Kind}
    (h : (parse source symbols).tree = .error (.unexpectedToken text found expected message)) :
    let s := Scanner.ofSource source symbols
    ∃ before token others passed ahead,
      s.scan.1 ++ s.scan.2.1.toOption.toList = before ++ token :: others ∧
      text = token.text ∧ found = token.kind ∧
      Text.clusters source = passed ++ ahead ∧
      (s.after before.length).skip.cursor = passed.length ∧
      Scanner.Begins symbols token ahead ∧ Text.caretColumn? message = some passed.length ∧
      ((Builder.start source).takeAll before).1 = .ok () ∧
      Viable (before.map Token.kind) ∧ ¬Viable ((before ++ [token]).map Token.kind) := by
  intro s
  rcases stuck_of_error source symbols h with ⟨-, -, stopped⟩ | ⟨before, token, others, stack,
    tokens, taken, stuck, complaint⟩
  · rcases Scanner.error_last_scan stopped with ⟨_, he⟩ | ⟨_, he⟩ <;> contradiction
  obtain ⟨rfl, rfl, -, rfl⟩ := Error.unexpectedToken.inj complaint
  obtain ⟨passed, split, cursor, same⟩ := Scanner.exists_start source symbols before.length
  have found := (s.after before.length).finds_next
  rw [← Prod.eta (s.after before.length).next, Scanner.next_after_of_scan tokens] at found
  obtain ⟨column, begins⟩ := found.begins (s.after before.length).settled_skip
  rw [same] at begins
  refine ⟨before, token, others, passed, _, tokens, rfl, rfl, split, cursor, begins, ?_,
    takeAll_start taken source, (Stack.viable_takeAll taken).1, Stack.not_viable_of_next taken stuck⟩
  rw [Text.caretColumn?_pointAt, column, cursor]

/-- The second literal begins in column 4, and the scanner has run past the comma behind it. -/
theorem caret_under_second_literal :
    ∃ message, (parse "(2) 1'0, +3" .standard).tree =
        .error (.unexpectedToken "10" .integer Token.Kind.operandEnd message) ∧
      Text.caretColumn? message = some 4 ∧
      ∃ before token passed ahead, Text.clusters "(2) 1'0, +3" = passed ++ ahead ∧
        Scanner.Begins .standard token ahead ∧ token.text = "10" ∧ token.kind = .integer ∧
        Text.caretColumn? message = some passed.length ∧
        ((Builder.start "(2) 1'0, +3").takeAll before).1 = .ok () ∧
        Viable (before.map Token.kind) := by
  have h : (parse "(2) 1'0, +3" .standard).tree = .error
      (.unexpected "(2) 1'0, +3" ⟨.integer, "10", 4⟩ Token.Kind.operandEnd) :=
    eq_error_of_of? (by decide +kernel)
  obtain ⟨before, token, others, passed, ahead, -, text, kind, clusters, -, begins, caret, taken,
    viable, -⟩ := unexpected_points_at_token h
  exact ⟨_, h, Text.caretColumn?_pointAt .., before, token, passed, ahead, clusters, begins,
    text.symm, kind.symm, caret, taken, viable⟩

end Parse
end Reckoner

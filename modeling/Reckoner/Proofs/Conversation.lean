import Reckoner.CommandLine

/-! Conversations line by line. Main statement: what is written for a line is what a run with that
line's expression alone writes, whatever was asked before, up to the line that ends the
conversation. -/
namespace Reckoner

namespace Text

/-- Bytes in lines: a line has one line feed and ends with it, but the last line may have none. -/
inductive Lined : List UInt8 → List (List UInt8) → Prop where
  | nil : Lined [] []
  | last {line : List UInt8} (ne : line ≠ []) (unbroken : 0x0A ∉ line) : Lined line [line]
  | cons {line bytes : List UInt8} {lines : List (List UInt8)} (unbroken : 0x0A ∉ line)
      (others : Lined bytes lines) : Lined (line ++ 0x0A :: bytes) ((line ++ [0x0A]) :: lines)

theorem lined_linesFrom {reversed : List UInt8} (unbroken : 0x0A ∉ reversed)
    (bytes : List UInt8) : Lined (reversed.reverse ++ bytes) (linesFrom reversed bytes) := by
  induction bytes generalizing reversed with
  | nil =>
    cases reversed with
    | nil => exact .nil
    | cons byte reversed =>
      rw [List.append_nil]
      exact .last (by simp) (fun mem => unbroken (List.mem_reverse.mp mem))
  | cons byte rest ih =>
    unfold linesFrom
    split
    next h =>
      rw [h, List.reverse_cons]
      exact .cons (by simpa using unbroken) (ih List.not_mem_nil)
    next h =>
      have longer : 0x0A ∉ byte :: reversed := by simp [unbroken, Ne.symm h]
      have step := ih longer
      rwa [List.reverse_cons, List.append_assoc] at step

theorem lined_lines (bytes : List UInt8) : Lined bytes (lines bytes) :=
  lined_linesFrom List.not_mem_nil bytes

theorem linesFrom_unbroken {line : List UInt8} (unbroken : 0x0A ∉ line)
    (reversed bytes : List UInt8) :
    linesFrom reversed (line ++ bytes) = linesFrom (line.reverse ++ reversed) bytes := by
  induction line generalizing reversed with
  | nil => rfl
  | cons byte line ih =>
    rw [List.mem_cons, not_or] at unbroken
    rw [List.cons_append, linesFrom, if_neg (Ne.symm unbroken.1), ih unbroken.2,
      List.reverse_cons, List.append_assoc]
    rfl

theorem Lined.eq_lines {bytes : List UInt8} {found : List (List UInt8)} (h : Lined bytes found) :
    found = lines bytes := by
  induction h with
  | nil => rfl
  | @last line ne unbroken =>
    have hlines := linesFrom_unbroken unbroken [] []
    simp only [List.append_nil] at hlines
    rw [lines, hlines, linesFrom, if_neg (by simpa using ne), List.reverse_reverse]
  | @cons line bytes found unbroken _ ih =>
    rw [lines, linesFrom_unbroken unbroken, List.append_nil, linesFrom, if_pos rfl, ih]
    simp [lines]

theorem Lined.append {first second : List UInt8} {lines more : List (List UInt8)}
    (h : Lined first lines) (closed : ∀ byte ∈ first.getLast?, byte = 0x0A)
    (h' : Lined second more) : Lined (first ++ second) (lines ++ more) := by
  induction h with
  | nil => exact h'
  | @last line ne unbroken =>
    have hlast := closed _ (List.getLast?_eq_some_getLast ne)
    exact absurd (hlast ▸ List.getLast_mem ne) unbroken
  | @cons line bytes found unbroken others ih =>
    rw [List.append_assoc, List.cons_append, List.cons_append]
    refine .cons unbroken (ih ?_)
    intro byte mem
    apply closed
    rw [List.getLast?_append, List.getLast?_cons, Option.mem_def.mp mem]
    rfl

theorem lines_append {first second : List UInt8}
    (closed : ∀ byte ∈ first.getLast?, byte = 0x0A) :
    lines (first ++ second) = lines first ++ lines second :=
  ((lined_lines first).append closed (lined_lines second)).eq_lines.symm

end Text

namespace CommandLine

/-- What is asked on a line, if it is text. -/
def asked? (line : List UInt8) : Option String := (Text.decode? line).map Text.trim

/-- The expression leaves the conversation. -/
def Leaves (expression : String) : Prop := expression = "q" ∨ expression = "Q"

instance (expression : String) : Decidable (Leaves expression) :=
  inferInstanceAs (Decidable (_ ∨ _))

/-- What a run with the expression alone writes; a blank one has no answer. -/
def alone (options : Options) (expression : String) : Transcript :=
  if expression = "" then ⟨"", "", 0⟩ else run (.evaluate options expression) []

/-- What is written of a line that is no text. -/
def unreadable : String :=
  "Error reading stdin: Error \x7b kind: InvalidData, " ++
    "message: \"stream did not contain valid UTF-8\" \x7d\n"

/-- The last words, given the line at which the conversation ends if there is one. -/
def farewell (line? : Option (List UInt8)) : String :=
  if ∃ line ∈ line?, asked? line = none then unreadable else ""

section Turn
variable (options : Options) {line : List UInt8} {expression : String}

theorem answer_eq_alone (h : expression.isEmpty = false) :
    answer options expression = alone options expression := by
  have hne : expression ≠ "" := by
    rintro rfl
    contradiction
  rw [alone, if_neg hne, run, h]
  rfl

theorem turn_goOn (h : asked? line = some expression) (stays : ¬ Leaves expression) :
    turn options line = .goOn (alone options expression) := by
  obtain ⟨text, hdecode, rfl⟩ := Option.map_eq_some_iff.mp h
  unfold turn
  rw [hdecode]
  dsimp only
  split
  next hblank =>
    rw [alone, if_pos (String.isEmpty_iff.mp hblank)]
  next hblank =>
    rw [if_neg (by simpa [Leaves] using stays),
      answer_eq_alone options (Bool.eq_false_iff.mpr hblank)]

theorem turn_leave (h : asked? line = some expression) (leaves : Leaves expression) :
    turn options line = .leave "" := by
  obtain ⟨text, hdecode, rfl⟩ := Option.map_eq_some_iff.mp h
  unfold turn
  rw [hdecode]
  dsimp only
  rw [if_neg, if_pos (by simpa [Leaves] using leaves)]
  intro hblank
  rw [String.isEmpty_iff.mp hblank] at leaves
  exact absurd leaves (by decide)

theorem turn_unreadable (h : asked? line = none) : turn options line = .leave unreadable := by
  unfold turn
  rw [Option.map_eq_none_iff.mp h]
  rfl

end Turn

section AnswerLines
variable (options : Options)

/-- One turn of the conversation: the answer is written, and the rest is the conversation about the
lines behind. -/
theorem answerLines_cons {line : List UInt8} {expression : String}
    (h : asked? line = some expression) (stays : ¬ Leaves expression) (rest : List (List UInt8)) :
    answerLines options (line :: rest) =
      ⟨prompt ++ (alone options expression).output ++ (answerLines options rest).output,
        (alone options expression).errors ++ (answerLines options rest).errors, 0⟩ := by
  rw [answerLines, turn_goOn options h stays]

theorem exitCode_answerLines (lines : List (List UInt8)) :
    (answerLines options lines).exitCode = 0 := by
  unfold answerLines
  repeat' split
  all_goals rfl

theorem answerLines_append {before : List (List UInt8)} {expressions : List String}
    (asked : before.map asked? = expressions.map some)
    (stay : ∀ expression ∈ expressions, ¬ Leaves expression) (rest : List (List UInt8)) :
    answerLines options (before ++ rest) =
      ⟨String.join (expressions.map fun e => prompt ++ (alone options e).output) ++
          (answerLines options rest).output,
        String.join (expressions.map fun e => (alone options e).errors) ++
          (answerLines options rest).errors, 0⟩ := by
  induction before generalizing expressions with
  | nil =>
    obtain rfl := List.map_eq_nil_iff.mp asked.symm
    simp [← exitCode_answerLines options rest]
  | cons line before ih =>
    cases expressions with
    | nil => contradiction
    | cons expression expressions =>
      obtain ⟨hline, hbefore⟩ := List.cons.inj asked
      rw [List.cons_append, answerLines_cons options hline (stay _ List.mem_cons_self),
        ih hbefore fun e mem => stay e (List.mem_cons_of_mem _ mem)]
      simp only [List.map_cons, String.join_cons, String.append_assoc]

theorem answerLines_end {rest : List (List UInt8)}
    (ends : ∀ line ∈ rest.head?, ∀ expression, asked? line = some expression → Leaves expression) :
    answerLines options rest = ⟨prompt ++ farewell rest.head?, "", 0⟩ := by
  cases rest with
  | nil => rfl
  | cons line rest =>
    rw [answerLines]
    cases h : asked? line with
    | none => simp [turn_unreadable options h, farewell, h]
    | some expression => simp [turn_leave options h (ends line rfl _ h), farewell, h]

omit options in
theorem exists_end (lines : List (List UInt8)) :
    ∃ before rest expressions, lines = before ++ rest ∧
      before.map asked? = List.map some expressions ∧
      (∀ expression ∈ expressions, ¬ Leaves expression) ∧
      ∀ line ∈ rest.head?, ∀ expression, asked? line = some expression → Leaves expression := by
  induction lines with
  | nil => exact ⟨[], [], [], rfl, rfl, by simp, by simp⟩
  | cons line lines ih =>
    cases h : asked? line with
    | none => exact ⟨[], line :: lines, [], rfl, rfl, by simp, by simp [h]⟩
    | some expression =>
      by_cases leaves : Leaves expression
      · exact ⟨[], line :: lines, [], rfl, rfl, by simp, by simp [h, leaves]⟩
      · obtain ⟨before, rest, expressions, rfl, hbefore, stay, ends⟩ := ih
        refine ⟨line :: before, rest, expression :: expressions, rfl, ?_, ?_, ends⟩
        · rw [List.map_cons, List.map_cons, h, hbefore]
        · exact List.forall_mem_cons.mpr ⟨leaves, stay⟩

end AnswerLines

/-- A conversation answers line by line what runs with one expression answer, up to the first line
that leaves or is no text, with a prompt before each answer and before the end. Behind answered
lines, whether with values or errors, it goes on as if it began there. This speaks of
wrapping arithmetic: a line that divides zero by a fraction whose numerator is the least word is
answered with zero. -/
theorem conversation_is_fold (options : Options) :
    (∀ input : List UInt8, ∃ before rest expressions,
      Text.Lined input (before ++ rest) ∧ before.map asked? = List.map some expressions ∧
      (∀ expression ∈ expressions, ¬ Leaves expression) ∧
      (∀ line ∈ rest.head?, ∀ expression, asked? line = some expression → Leaves expression) ∧
      run (.evaluate options "") input =
        ⟨String.join (expressions.map fun e => prompt ++ (alone options e).output) ++
            (prompt ++ farewell rest.head?),
          String.join (expressions.map fun e => (alone options e).errors), 0⟩) ∧
    ∀ (first second : List UInt8) (lines : List (List UInt8)) (expressions : List String),
      Text.Lined first lines → (∀ byte ∈ first.getLast?, byte = 0x0A) →
      lines.map asked? = expressions.map some →
      (∀ expression ∈ expressions, ¬ Leaves expression) →
      run (.evaluate options "") (first ++ second) =
        ⟨String.join (expressions.map fun e => prompt ++ (alone options e).output) ++
            (run (.evaluate options "") second).output,
          String.join (expressions.map fun e => (alone options e).errors) ++
            (run (.evaluate options "") second).errors, 0⟩ := by
  constructor
  · intro input
    obtain ⟨before, rest, expressions, hlines, hbefore, stay, ends⟩ :=
      exists_end (Text.lines input)
    refine ⟨before, rest, expressions, hlines ▸ Text.lined_lines input, hbefore, stay, ends, ?_⟩
    change answerLines options (Text.lines input) = _
    rw [hlines, answerLines_append options hbefore stay, answerLines_end options ends,
      String.append_empty]
  · intro first second lines expressions lined closed asked stay
    change answerLines options (Text.lines (first ++ second)) = _
    rw [Text.lines_append closed, ← lined.eq_lines, answerLines_append options asked stay]
    rfl

theorem conversation_survives_failure :
    let first := "1/0\n  \n".toUTF8.toList
    let second := "2 + 3\nq\n4".toUTF8.toList
    Text.Lined first (Text.lines first) ∧ (∀ byte ∈ first.getLast?, byte = 0x0A) ∧
      (Text.lines first).map asked? = ["1/0", ""].map some ∧
      (∀ expression ∈ ["1/0", ""], ¬ Leaves expression) ∧
      run (.evaluate {} "") (first ++ second) =
        ⟨"$ = $ = $ = 2 + 3 = 5\n$ = ", "illformed expression\n", 0⟩ := by
  intro first second
  have lined := Text.lined_lines first
  have closed : ∀ byte ∈ first.getLast?, byte = 0x0A := by decide +kernel
  have asked : (Text.lines first).map asked? = ["1/0", ""].map some := by decide +kernel
  have stay : ∀ expression ∈ ["1/0", ""], ¬ Leaves expression := by decide
  have failing : alone {} "1/0" = ⟨"", "illformed expression\n", 70⟩ := by decide +kernel
  have blank : alone {} "" = ⟨"", "", 0⟩ := rfl
  have answered : run (.evaluate {} "") second = ⟨"$ = 2 + 3 = 5\n$ = ", "", 0⟩ := by decide +kernel
  refine ⟨lined, closed, asked, stay, ?_⟩
  rw [(conversation_is_fold {}).2 first second _ _ lined closed asked stay, answered]
  simp only [List.map_cons, List.map_nil, failing, blank]
  decide

end CommandLine
end Reckoner

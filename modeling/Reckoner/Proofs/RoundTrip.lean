import Reckoner.Proofs.Continuation
import Reckoner.Proofs.Fallback
import Reckoner.Proofs.Value

/-! Exact results as expressions. Main statement: what an exact result is shown as evaluates to that
result again, down to the least word, over which the minus sign is folded before the digits are
read. -/
namespace Reckoner
open Numeral.Symbols (standard)

theorem Text.characters_append (a b : String) :
    characters (a ++ b) = characters a ++ characters b := by
  rw [characters, String.toList_append, List.map_append]
  rfl

namespace Numeral

theorem characters_natText (n : Nat) :
    Text.characters (natText n) = (digits n).map String.singleton := by
  rw [Text.characters, natText, String.toList_ofList]

theorem isPrintable_natText (n : Nat) : ∀ c ∈ (natText n).toList, Text.IsPrintable c := by
  rw [natText, String.toList_ofList]
  exact fun _ mem => Text.isPrintable_of_isDigit (isDigit_of_mem_digits mem)

theorem isPrintable_intText (n : Int) : ∀ c ∈ (intText n).toList, Text.IsPrintable c := by
  unfold intText
  split
  · rw [String.toList_append]
    have minus : ∀ c ∈ "-".toList, Text.IsPrintable c := Text.printable_of_all (by decide)
    exact List.forall_mem_append.mpr ⟨minus, isPrintable_natText _⟩
  · exact isPrintable_natText _

theorem readInteger?_digits (w : Int64) :
    readInteger? (decide (w.toInt < 0)) (digits w.toInt.natAbs) = some (.integer w) := by
  have all : (digits w.toInt.natAbs).all Char.isDigit = true :=
    List.all_eq_true.mpr fun _ => isDigit_of_mem_digits
  have signed : (if w.toInt < 0 then -(w.toInt.natAbs : Int) else w.toInt.natAbs) = w.toInt := by
    split <;> omega
  simp only [readInteger?, List.isEmpty_eq_false_iff.mpr (digits_ne_nil _), all, Bool.not_true,
    Bool.or_false, Bool.false_eq_true, if_false, value_digits, decide_eq_true_eq, signed,
    Word.ofInt?_toInt]

end Numeral

namespace Fraction

theorem isPrintable_text (f : Fraction) : ∀ c ∈ f.text.toList, Text.IsPrintable c := by
  have bar : ∀ c ∈ " / ".toList, Text.IsPrintable c := Text.printable_of_all (by decide)
  rw [text, String.toList_append, String.toList_append]
  exact List.forall_mem_append.mpr ⟨List.forall_mem_append.mpr
    ⟨Numeral.isPrintable_intText _, bar⟩, Numeral.isPrintable_intText _⟩

theorem characters_text (f : Fraction) :
    Text.characters f.text = Text.characters (Numeral.intText f.numerator.toInt) ++
      " " :: "/" :: " " :: Text.characters (Numeral.intText f.denominator.toInt) := by
  have bar : Text.characters " / " = [" ", "/", " "] := by decide
  rw [text, Text.characters_append, Text.characters_append, bar, List.append_assoc]
  rfl

end Fraction

/-- The tokens of an integer as it is shown, from the column on. -/
def Token.ofInt (n : Int) (column : Nat) : List Token :=
  if n < 0 then
    [⟨.operator .subtract, "-", column⟩, ⟨.integer, Numeral.natText n.natAbs, column + 1⟩]
  else [⟨.integer, Numeral.natText n.natAbs, column⟩]

namespace Scanner
variable (source : String) {rest : List String} (cursor : Nat)

theorem scan_natText (ends : standard.Ends rest) (n : Nat) :
    ∃ behind, (Scanner.mk source standard
        (Text.characters (Numeral.natText n) ++ rest) cursor).scan =
      (Scanner.mk source standard rest behind).scanBehind
        [⟨.integer, Numeral.natText n, cursor⟩] := by
  rw [Numeral.characters_natText]
  exact ⟨_, scan_digits source cursor (fun _ => Numeral.isDigit_of_mem_digits)
    (fun _ => Numeral.isGrouping_of_isDigit) ends (Numeral.digits_ne_nil n)⟩

theorem scan_intText (ends : standard.Ends rest) (n : Int) :
    ∃ behind, (Scanner.mk source standard
        (Text.characters (Numeral.intText n) ++ rest) cursor).scan =
      (Scanner.mk source standard rest behind).scanBehind (Token.ofInt n cursor) := by
  unfold Numeral.intText Token.ofInt
  split
  · obtain ⟨behind, read⟩ := scan_natText source (cursor + 1) ends n.natAbs
    have minus : Text.characters "-" = ["-"] := by decide
    refine ⟨behind, ?_⟩
    rw [Text.characters_append, minus, List.append_assoc, List.singleton_append,
      scan_symbol source cursor (by decide) (by decide) (by decide) (by decide),
      scanBehind_of_scan read]
    rfl
  · exact scan_natText source cursor ends n.natAbs

theorem scan_lastInt (n : Int) :
    (Scanner.mk source standard (Text.characters (Numeral.intText n)) cursor).scan.1 =
        Token.ofInt n cursor ∧
      ∃ last, (Scanner.mk source standard (Text.characters (Numeral.intText n)) cursor).scan.2.1 =
        .ok last := by
  obtain ⟨behind, read⟩ := scan_intText source cursor standard.ends_nil n
  rw [List.append_nil] at read
  exact scan_of_end read rfl

theorem scan_bar : (Scanner.mk source standard (" " :: "/" :: " " :: rest) cursor).scan =
    (Scanner.mk source standard rest (cursor + 3)).scanBehind
      [⟨.operator .divide, "/", cursor + 1⟩] := by
  rw [scan_blank source cursor (by decide),
    scan_symbol source (cursor + 1) (by decide) (by decide) (by decide) (by decide), scanBehind,
    scan_blank source (cursor + 1 + 1) (by decide)]
  rfl

theorem ofSource_printable {text : String} (printable : ∀ c ∈ text.toList, Text.IsPrintable c)
    (symbols : Numeral.Symbols) :
    ofSource text symbols = ⟨text, symbols, Text.characters text, 0⟩ := by
  rw [ofSource, Text.clusters_printable printable]

theorem scan_fraction (f : Fraction) :
    ∃ bar, (ofSource f.text standard).scan.1 = Token.ofInt f.numerator.toInt 0 ++
        ⟨.operator .divide, "/", bar + 1⟩ :: Token.ofInt f.denominator.toInt (bar + 3) ∧
      ∃ last, (ofSource f.text standard).scan.2.1 = .ok last := by
  have ends : standard.Ends
      (" " :: "/" :: " " :: Text.characters (Numeral.intText f.denominator.toInt)) := by
    rintro _ ⟨⟩
    decide
  obtain ⟨bar, read⟩ := scan_intText f.text 0 ends f.numerator.toInt
  obtain ⟨tokens, last⟩ := scan_lastInt f.text (bar + 3) f.denominator.toInt
  rw [scanBehind_of_scan (scan_bar f.text bar), scanBehind, tokens] at read
  rw [ofSource_printable f.isPrintable_text, f.characters_text, read]
  exact ⟨bar, List.append_assoc .., last⟩

end Scanner

theorem Stack.takeAll_ofInt {s : Stack} (ha : s.awaiting = .operand) (w : Int64) (column : Nat) :
    s.takeAll (Token.ofInt w.toInt column) =
      some { s with awaiting := .operator (.leaf s.made (.integer w)), made := s.made + 1 } := by
  have digits := Numeral.readInteger?_digits w
  have read (column : Nat) : Numeral.read? (decide (w.toInt < 0))
      ⟨.integer, Numeral.natText w.toInt.natAbs, column⟩ = some (.integer w) := by
    rw [Numeral.read?, Numeral.natText, String.toList_ofList, digits]
  unfold Token.ofInt
  by_cases negative : w.toInt < 0
  · rw [if_pos negative, takeAll_cons, take_of_step (.signed true ha rfl), Option.bind_some,
      takeAll_cons, take_of_step (.literal true (.integer w) (.inl rfl) rfl
        (by simpa [negative] using read (column + 1)))]
    rfl
  · rw [if_neg negative, takeAll_cons, take_of_step (.literal false (.integer w) (.inr ⟨ha, rfl⟩) rfl
        (by simpa [negative] using read column))]
    rfl

theorem parse_integer (w : Int64) :
    (parse (Numeral.intText w.toInt) standard).tree = .ok (.leaf 0 (.integer w)) := by
  have alone := Scanner.ofSource_printable (Numeral.isPrintable_intText w.toInt) standard
  obtain ⟨tokens, last, found⟩ := Scanner.scan_lastInt (Numeral.intText w.toInt) 0 w.toInt
  have taken := Stack.takeAll_ofInt (s := Stack.start) rfl w 0
  rw [parse_eq_ok_iff, alone, tokens]
  exact ⟨last, _, found, taken, rfl⟩

theorem parse_fraction (f : Fraction) :
    (parse f.text standard).tree = .ok (.op 1 .divide (.of 0 .multiplicative)
      (.leaf 0 (.integer f.numerator)) (.leaf 2 (.integer f.denominator))) := by
  obtain ⟨bar, tokens, last, found⟩ := Scanner.scan_fraction f
  let above : Stack := ⟨[], .operator (.leaf 0 (.integer f.numerator)), 0, 1⟩
  let beyond : Stack := above.operate .divide .multiplicative (.leaf 0 (.integer f.numerator))
  have first : Stack.start.takeAll (Token.ofInt f.numerator.toInt 0) = some above :=
    Stack.takeAll_ofInt rfl f.numerator 0
  have between : above.take ⟨.operator .divide, "/", bar + 1⟩ = some beyond :=
    Stack.take_of_step (.operated _ .divide rfl rfl)
  have second := Stack.takeAll_ofInt (s := beyond) rfl f.denominator (bar + 3)
  have taken := Stack.start.takeAll_append (Token.ofInt f.numerator.toInt 0)
    (⟨.operator .divide, "/", bar + 1⟩ :: Token.ofInt f.denominator.toInt (bar + 3))
  rw [first, Option.bind_some, Stack.takeAll_cons, between, Option.bind_some, second] at taken
  rw [parse_eq_ok_iff, tokens]
  exact ⟨last, _, found, taken, rfl⟩

namespace Number

/-- A fraction is in lowest terms and not whole. -/
def WellFormed : Number → Prop
  | fraction f => f.WellFormed ∧ 2 ≤ f.denominator.toInt
  | _ => True

variable {a b r : Number}

theorem wellFormed_of_holds {x : ℚ} (h : a.Holds x) (collapsed : a.Collapsed) : a.WellFormed := by
  cases a with
  | integer | float => trivial
  | fraction f => exact ⟨h.1, (Fraction.isWhole_eq_false_iff h.1).mp collapsed⟩

theorem WellFormed.exists_holds (h : a.WellFormed) (exact : a.isFloat = false) :
    ∃ x, a.Holds x := by
  cases a with
  | integer n => exact ⟨_, rfl⟩
  | float => contradiction
  | fraction f => exact ⟨_, h.1, rfl⟩

theorem toFraction?_of_isFloat (h : a.isFloat = true) : a.toFraction? = none := by
  cases a with
  | float => rfl
  | integer | fraction => contradiction

section Float
variable (h : a.isFloat = true ∨ b.isFloat = true) {op : Fraction → Fraction → Option Fraction}
include h

theorem viaFractions?_float : viaFractions? op a b = none := by
  rcases h with h | h <;> rw [viaFractions?, toFraction?_of_isFloat h]
  · rfl
  · cases a.toFraction? <;> rfl

theorem exactWhole?_float {whole : Int → Int → Int} : exactWhole? whole op a b = none := by
  rw [exactWhole?]
  · exact viaFractions?_float h
  · rintro m n rfl rfl
    simp [isFloat] at h

end Float
end Number

namespace Operator
variable {operator : Operator} {a b r : Number}

theorem wellFormed_of_float (h : a.isFloat = true ∨ b.isFloat = true)
    (hr : operator.apply a b = .ok r) : r.WellFormed := by
  cases operator with
  | add | subtract | multiply =>
    rw [← Except.ok.inj hr]
    simp only [Number.add, Number.sub, Number.mul, Number.exactWhole?_float h]
    trivial
  | divide =>
    rw [apply, Number.div] at hr
    split at hr
    · contradiction
    · rw [← Except.ok.inj hr, Number.viaFractions?_float h]
      trivial
  | power =>
    cases r with
    | integer | float => trivial
    | fraction f => exact absurd (Except.ok.inj hr) (Number.pow_ne_fraction a b f)

theorem wellFormed_apply (ha : a.WellFormed) (hb : b.WellFormed)
    (hr : operator.apply a b = .ok r) : r.WellFormed := by
  by_cases h : a.isFloat = true ∨ b.isFloat = true
  · exact wellFormed_of_float h hr
  rw [not_or, Bool.not_eq_true, Bool.not_eq_true] at h
  obtain ⟨x, hx⟩ := ha.exists_holds h.1
  obtain ⟨y, hy⟩ := hb.exists_holds h.2
  cases exact : r.isFloat with
  | true =>
    cases r with
    | float => trivial
    | integer | fraction => contradiction
  | false =>
    obtain ⟨z, -, hz⟩ := holds_apply hx hy hr exact
    exact Number.wellFormed_of_holds hz (collapsed_apply hr)

end Operator

theorem Tree.wellFormed_value {tree : Tree} (numbers : ∀ n ∈ tree.numbers, n.WellFormed) {v : Number}
    (h : tree.value = .ok v) : v.WellFormed := by
  induction tree generalizing v with
  | hole => contradiction
  | leaf id n =>
    obtain rfl := Except.ok.inj h
    exact numbers n (List.mem_singleton_self n)
  | op id operator level left right ihl ihr =>
    obtain ⟨inLeft, inRight⟩ := List.forall_mem_append.mp numbers
    rw [value] at h
    obtain ⟨a, ha, h⟩ := exists_of_bind_eq_ok h
    obtain ⟨b, hb, h⟩ := exists_of_bind_eq_ok h
    exact Operator.wellFormed_apply (ihl inLeft ha) (ihr inRight hb) h

namespace Calculation
variable {source : String} {symbols : Numeral.Symbols}

theorem wellFormed_outcome {v : Number} (h : (ofSource source symbols).outcome = .ok v) :
    v.WellFormed := by
  cases ht : (ofSource source symbols).tree with
  | error error =>
    rw [outcome_of_tree_error ht] at h
    contradiction
  | ok tree =>
    rw [outcome_of_tree ht] at h
    rw [tree_ofSource] at ht
    refine Tree.wellFormed_value (fun n mem => ?_) h
    cases n with
    | integer | float => trivial
    | fraction f =>
      obtain ⟨_, hw⟩ := integer_of_parse ht mem rfl
      contradiction

theorem outcome_integer (w : Int64) :
    (ofSource (Number.integer w).text standard).outcome = .ok (.integer w) :=
  outcome_of_tree (tree_ofSource.trans (parse_integer w))

/-- The parts are integers for the parser, and dividing them makes the fraction again. -/
theorem outcome_fraction {f : Fraction} (hf : f.WellFormed) (hd : 2 ≤ f.denominator.toInt) :
    (ofSource (Number.fraction f).text standard).outcome = .ok (.fraction f) := by
  have hd0 : f.denominator.toInt ≠ 0 := by omega
  have quotient : (Fraction.ofInt64 f.numerator).div? (.ofInt64 f.denominator) = some f := by
    rw [Fraction.div?_ofInt64 f.numerator hd0, Fraction.ofRational?_eq_some_iff]
    exact ⟨hf, rfl⟩
  have nonzero : (Fraction.ofInt64 f.denominator).rational ≠ 0 := by
    rw [Fraction.rational_ofInt64]
    exact_mod_cast hd0
  have held : Number.ofFraction f = .fraction f := by
    rw [Number.ofFraction, (Fraction.isWhole_eq_false_iff hf).mpr hd, if_neg Bool.false_ne_true]
  have divided : (Number.integer f.numerator).div (.integer f.denominator) = .ok (.fraction f) := by
    rw [Number.div_eq_ok rfl (Fraction.wellFormed_ofInt64 _) nonzero,
      Number.viaFractions?_eq rfl rfl, quotient, Option.map_some, Option.getD_some, held]
  exact (outcome_of_tree (tree_ofSource.trans (parse_fraction f))).trans divided

theorem outcome_text {v : Number} (wf : v.WellFormed) (exact : v.isFloat = false) :
    (ofSource v.text standard).outcome = .ok v := by
  cases v with
  | integer w => exact outcome_integer w
  | float => contradiction
  | fraction f => exact outcome_fraction wf.1 wf.2

/-- Integers and fractions that are not whole are shown as expressions of their own value. So is
whatever a source evaluates to if it is no float, and evaluating what is shown shows it again. -/
theorem exact_results_read_back :
    (∀ w : Int64, (ofSource (Number.integer w).text standard).outcome = .ok (.integer w)) ∧
    (∀ f : Fraction, Int.gcd f.numerator.toInt f.denominator.toInt = 1 →
      2 ≤ f.denominator.toInt →
      (ofSource (Number.fraction f).text standard).outcome = .ok (.fraction f)) ∧
    ∀ (source : String) (symbols : Numeral.Symbols) (v : Number),
      (ofSource source symbols).outcome = .ok v → v.isFloat = false →
      (ofSource v.text standard).outcome = .ok v ∧
        (ofSource v.text standard).text = (ofSource source symbols).text := by
  refine ⟨outcome_integer, fun f coprime hd => outcome_fraction ⟨by omega, coprime⟩ hd, ?_⟩
  intro source symbols v h exact
  have again := outcome_text (wellFormed_outcome h) exact
  exact ⟨again, by rw [text, text, again, h]⟩

/-- The least word alone and above a bar, and a result shown in other symbols than it was asked
for. -/
theorem least_word_read_back :
    let third : Fraction := ⟨Int64.minValue, 3⟩
    let original := ofSource "1.000/(0-6)" (.ofLists "," ["."])
    (ofSource "-9223372036854775808" standard).outcome = .ok (.integer Int64.minValue) ∧
    (ofSource "-9223372036854775808 / 3" standard).outcome = .ok (.fraction third) ∧
    original.outcome = .ok (.fraction ⟨-500, 3⟩) ∧
      (ofSource "-500 / 3" standard).outcome = .ok (.fraction ⟨-500, 3⟩) ∧
      (ofSource "-500 / 3" standard).text = original.text := by
  intro third original
  have asked : original.outcome = .ok (.fraction ⟨-500, 3⟩) := eq_ok_of_toOption (by decide +kernel)
  obtain ⟨integers, fractions, results⟩ := exact_results_read_back
  have least := integers Int64.minValue
  have shown := fractions third (by decide +kernel) (by decide)
  obtain ⟨again, same⟩ := results "1.000/(0-6)" _ _ asked rfl
  have texts : (Number.integer Int64.minValue).text = "-9223372036854775808" ∧
      (Number.fraction third).text = "-9223372036854775808 / 3" ∧
      (Number.fraction ⟨-500, 3⟩).text = "-500 / 3" := by
    decide +kernel
  rw [texts.1] at least
  rw [texts.2.1] at shown
  rw [texts.2.2] at again same
  exact ⟨least, shown, asked, again, same⟩

end Calculation
end Reckoner

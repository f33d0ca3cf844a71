import Mathlib.Data.List.Induction
import Mathlib.Data.Nat.Digits.Defs
import Reckoner.Proofs.Caret
import Reckoner.Proofs.Nodes

/-! The numbers that literals become. Main statement: every literal that a scanner yields can be
read, and an integer stays one exactly if it fits together with its sign. A minus sign counts for
the literal or the group directly behind it and for nothing else. -/
namespace Reckoner

namespace Numeral

theorem value_eq_ofDigits (text : List Char) :
    value text = Nat.ofDigits 10 (text.map digitValue).reverse := by
  induction text using List.reverseRecOn with
  | nil => rfl
  | append_singleton text c ih =>
    have step : value (text ++ [c]) = 10 * value text + digitValue c := by simp [value]
    rw [step, ih, List.map_append, List.map_singleton, List.reverse_append, List.reverse_singleton,
      List.singleton_append, Nat.ofDigits_cons, Nat.add_comm]

theorem value_zeros (zeros : Nat) (text : List Char) :
    value (List.replicate zeros '0' ++ text) = value text := by
  have start : (List.replicate zeros '0').foldl (fun n c => 10 * n + digitValue c) 0 = 0 := by
    induction zeros with
    | zero => rfl
    | succ zeros ih => exact ih
  rw [value, List.foldl_append, start, value]

theorem readInteger?_zeros {text : List Char} (hne : text ≠ []) (negative : Bool) (zeros : Nat) :
    readInteger? negative (List.replicate zeros '0' ++ text) = readInteger? negative text := by
  have digits : (List.replicate zeros '0').all Char.isDigit = true := by
    rw [List.all_eq_true]
    intro c mem
    rw [List.eq_of_mem_replicate mem]
    decide
  rw [readInteger?, readInteger?, value_zeros, List.all_append, digits, Bool.true_and,
    List.isEmpty_eq_false_iff.mpr hne, List.isEmpty_eq_false_iff.mpr (by simp [hne])]

/-- The integer if it fits, and a float otherwise. -/
def Stands (n : Int) (number : Number) : Prop :=
  (∀ w, number = .integer w ↔ w.toInt = n) ∧ ((∃ x, number = .float x) ↔ ¬ Word.Fits n)

theorem exists_stands {text : List Char} (spelled : Spelled false text) (hne : text ≠ [])
    (negative : Bool) :
    ∃ number, readInteger? negative text = some number ∧
      Stands (if negative then -(value text : Int) else value text) number := by
  simp only [Spelled, Bool.false_eq_true, if_false] at spelled
  simp only [readInteger?, List.isEmpty_eq_false_iff.mpr hne, spelled, Bool.not_true, Bool.or_false,
    Bool.false_eq_true, if_false]
  generalize (if negative then -(value text : Int) else value text) = signed
  cases hw : Word.ofInt? signed with
  | none =>
    have wide := Word.ofInt?_eq_none_iff.mp hw
    refine ⟨_, rfl, fun w => ?_, ?_⟩
    · refine iff_of_false (by simp) ?_
      rintro rfl
      exact wide (Word.fits_toInt w)
    · exact iff_of_true ⟨_, rfl⟩ wide
  | some w =>
    have same := Word.ofInt?_eq_some_iff.mp hw
    refine ⟨_, rfl, fun v => ?_, ?_⟩
    · rw [← same, Number.integer.injEq, eq_comm, Int64.toInt_inj]
    · refine iff_of_false (by simp) (not_not.mpr ?_)
      rw [← same]
      exact Word.fits_toInt w

end Numeral

/-- An integer literal is spelled with digits, and a decimal one with digits and one point. -/
structure Token.Spelled (token : Token) : Prop where
  integer : token.kind = .integer → token.text.toList ≠ [] ∧ ∀ c ∈ token.text.toList, c.isDigit
  decimal : token.kind = .decimal → token.text.toList.count '.' = 1 ∧
    (∀ c ∈ token.text.toList, c = '.' ∨ c.isDigit) ∧ ∃ c ∈ token.text.toList, c.isDigit

namespace Scanner

theorem spelled_of_next {s : Scanner} {token : Token} (h : s.next.1 = .ok token) :
    token.Spelled := by
  constructor
  · intro hk
    obtain ⟨hne, -, ⟨-, spelled⟩ | ⟨hk', -⟩⟩ := spelled_next h (by rw [hk]; rfl)
    · exact ⟨hne, List.all_eq_true.mp spelled⟩
    · rw [hk] at hk'
      contradiction
  · intro hk
    obtain ⟨-, hpoint, ⟨hk', -⟩ | ⟨-, whole, places, text, hw, hp⟩⟩ :=
      spelled_next h (by rw [hk]; rfl)
    · rw [hk] at hk'
      contradiction
    have digits : ∀ c ∈ whole ++ places, c.isDigit := by
      rw [← List.all_eq_true, List.all_append, hw, hp]
      rfl
    have other : '.' ∉ whole ++ places := fun mem => absurd (digits '.' mem) (by decide)
    rw [List.mem_append, not_or] at other
    rw [text]
    refine ⟨?_, fun c mem => ?_, ?_⟩
    · rw [List.count_append, List.count_cons_self, List.count_eq_zero.mpr other.1,
        List.count_eq_zero.mpr other.2]
    · rcases List.mem_append.mp mem with mem | mem
      · exact .inr (digits c (List.mem_append_left _ mem))
      · exact (List.mem_cons.mp mem).imp_right fun mem => digits c (List.mem_append_right _ mem)
    · obtain ⟨c, mem⟩ := List.exists_mem_of_ne_nil (whole ++ places) (by
        intro hnil
        obtain ⟨rfl, rfl⟩ := List.append_eq_nil_iff.mp hnil
        exact hpoint text)
      refine ⟨c, ?_, digits c mem⟩
      rw [List.mem_append, List.mem_cons]
      exact (List.mem_append.mp mem).imp_right .inr

end Scanner

namespace Language
open Token (Kind)

/-- Whether these kinds end in a minus sign that is no operator, as it comes behind no operand. -/
def negates (before : List Kind) : Bool :=
  before.getLast? = some (.operator .subtract) && !before.dropLast.getLast?.any endsOperand

theorem after_of_run {kinds : List Kind} {p : Phase}
    (h : (Phase.operand false).run kinds = some p) : p.after = kinds.getLast?.any endsOperand := by
  rcases List.eq_nil_or_concat kinds with rfl | ⟨before, kind, rfl⟩
  · obtain rfl := Option.some.inj h
    rfl
  · rw [List.concat_eq_append] at h ⊢
    rw [Phase.after_run h, List.getLast?_concat, Option.any_some]

theorem negative_of_run {kinds : List Kind} {p : Phase}
    (h : (Phase.operand false).run kinds = some p) : p.negative = negates kinds := by
  rcases List.eq_nil_or_concat kinds with rfl | ⟨before, kind, rfl⟩
  · obtain rfl := Option.some.inj h
    rfl
  rw [List.concat_eq_append] at h ⊢
  rw [Phase.run_append] at h
  obtain ⟨q, hq, h⟩ := Option.bind_eq_some_iff.mp h
  obtain ⟨_, hn, h⟩ := Phase.next_of_run_cons h
  obtain rfl := Option.some.inj h
  rw [negates, List.getLast?_concat, List.dropLast_concat, ← after_of_run hq]
  unfold Phase.next at hn
  split at hn <;> simp only [Option.some.injEq, reduceCtorEq] at hn <;> subst hn <;>
    simp [Phase.negative, Phase.after]

/-- The numbers that tokens make behind these kinds, in order: one for each literal, a factor for
each group behind a minus sign, and a zero where an operand is missing at the end. -/
def operands (before : List Kind) : List Token → List Number
  | [] => if expectedAfter before = Kind.operandStart then [.integer 0] else []
  | token :: rest =>
    (if token.kind.isLiteral then (Numeral.read? (negates before) token).toList
      else if token.kind = .openParen && negates before then [.integer (-1)]
      else []) ++ operands (before ++ [token.kind]) rest

end Language

def Content.number? : Content → Option Number
  | number n => some n
  | operation _ => none

namespace Language
open Token (Kind)

theorem numbers_adds (p : Phase) (groups : Nat) (token : Token) (rest : List Token) :
    ((p.adds groups token rest).map Entry.content).filterMap Content.number? =
      if token.kind.isLiteral then (Numeral.read? p.negative token).toList
      else if token.kind = .openParen && p.negative then [.integer (-1)]
      else [] := by
  unfold Phase.adds
  generalize Numeral.read? p.negative token = read
  generalize token.kind = kind
  cases p with
  | signed negative =>
    cases negative <;> cases kind <;> cases read <;> rfl
  | _ => cases kind <;> cases read <;> rfl

theorem numbers_lacks {q last : Phase} (hn : q.next .endOfInput = some last) :
    (q.lacks.map Entry.content).filterMap Content.number? =
      if q.due = Kind.operandStart then [.integer 0] else [] := by
  cases q with
  | operand started => simp [Phase.lacks, Phase.due, Entry.content, Content.number?]
  | operator => decide
  | signed | ended => simp [Phase.next] at hn

theorem numbers_entries {before : List Kind} {p q last : Phase} {tokens : List Token}
    (reached : (Phase.operand false).run before = some p)
    (hr : p.run (tokens.map Token.kind) = some q) (hn : q.next .endOfInput = some last)
    (groups : Nat) :
    ((entries p groups tokens ++ q.lacks).map Entry.content).filterMap Content.number? =
      operands before tokens := by
  induction tokens generalizing before p groups with
  | nil =>
    obtain rfl := Option.some.inj hr
    have due : expectedAfter ([] ++ before) = p.due := due_run reached rfl
    rw [entries, List.nil_append, numbers_lacks hn, ← due]
    rfl
  | cons token rest ih =>
    obtain ⟨p', hnext, hr⟩ := Phase.next_of_run_cons hr
    have further : (Phase.operand false).run (before ++ [token.kind]) = some p' := by
      rw [Phase.run_append, reached, Option.bind_some, Phase.run_cons, hnext]
      rfl
    rw [entries, hnext, List.append_assoc, List.map_append, List.filterMap_append,
      numbers_adds, negative_of_run reached, operands]
    exact congrArg _ (ih further hr (groupsAfter groups token.kind))

end Language

namespace Builder
variable {b : Builder} {token : Token} {negative : Bool}
  (ready : b.awaiting = .signed negative ∨ b.awaiting = .operand ∧ negative = false)
include ready

theorem take_literal (literal : token.kind.isLiteral) {number : Number}
    (read : Numeral.read? negative token = some number) :
    b.take token =
      .ok { b with awaiting := .operator (.leaf b.made number), made := b.made + 1 } := by
  have taken : b.take token = b.literal negative token := by
    rcases ready with ha | ⟨ha, rfl⟩ <;> cases hk : token.kind <;>
      simp_all [take, takeOperand, takeSigned, Token.Kind.isLiteral]
  rw [taken, Builder.literal, read]
  rfl

theorem take_openParen (opening : token.kind = .openParen) :
    b.take token = if negative then b.negateGroup.map openGroup else .ok b.openGroup := by
  rcases ready with ha | ⟨ha, rfl⟩ <;> simp [take, ha, takeOperand, takeSigned, opening]

end Builder

section Parse
open Reckoner.Language
variable {source : String} {symbols : Numeral.Symbols}

theorem numbers_of_parse {tree : Tree} (h : (parse source symbols).tree = .ok tree) :
    tree.sourceOrder.filterMap (fun node => node.1.number?) =
      operands [] (Scanner.ofSource source symbols).scan.1 := by
  obtain ⟨final, s, -, ht, hf⟩ := parse_eq_ok_iff.mp h
  have hr : (Phase.operand false).run _ = some s.phase := Stack.phase_takeAll ht
  have hn : s.phase.next .endOfInput = some .ended := by
    rw [Stack.next_phase_endOfInput, hf]
    rfl
  have order := (sourceOrder_of_parse h).2
  rw [arena, hr] at order
  have contents : tree.sourceOrder.map Prod.fst =
      (entries (.operand false) 0 (Scanner.ofSource source symbols).scan.1 ++
        s.phase.lacks).map Entry.content := by
    rw [order, List.zipIdx_map_fst]
    rfl
  rw [← numbers_entries rfl hr hn 0, ← contents, List.filterMap_map]
  rfl

/-- Before an operand, the sign that is pending is the one directly before. -/
theorem ready_of_takeAll {before after : List Token} {b : Builder}
    (hb : (Scanner.ofSource source symbols).scan.1 = before ++ after)
    (ht : (Builder.start source).takeAll before = (.ok (), b))
    (operand : ∀ literal, b.awaiting ≠ .operator literal) :
    b.awaiting = .signed (negates (before.map Token.kind)) ∨
      b.awaiting = .operand ∧ negates (before.map Token.kind) = false := by
  obtain ⟨s, placements, hs, rfl⟩ := Stack.exists_of_takeAll hb ht
  have hr : (Phase.operand false).run _ = some s.phase := Stack.phase_takeAll hs
  rw [← negative_of_run hr]
  change s.awaiting = _ ∨ s.awaiting = _ ∧ _
  cases ha : s.awaiting with
  | operand => exact .inr ⟨rfl, by rw [Stack.phase, ha]; rfl⟩
  | signed negative => exact .inl (by rw [Stack.phase, ha]; rfl)
  | operator literal => exact absurd ha (operand literal)

theorem malformedNumber_of_parse {message : String}
    (h : (parse source symbols).tree = .error (.malformedNumber message)) :
    (Scanner.ofSource source symbols).scan.2.1 = .error (.malformedNumber message) := by
  generalize herror : Error.malformedNumber message = error at h ⊢
  cases violation_of_error source symbols h with
  | unscanned error stopped => exact stopped
  | unexpected => contradiction

/-- Whenever the scanner finds a literal, it is well spelled and can be read, and so no number is
malformed but by the scanner. An integer is read as what its digits stand for with the sign if that
fits, and as a float otherwise, whatever zeros stand in front. Before an operand, a literal or group
is negated exactly behind a minus sign that is no operator, and a tree holds the numbers that its
tokens make in this way. -/
theorem literals_exact_iff_fit (source : String) (symbols : Numeral.Symbols) :
    let s := Scanner.ofSource source symbols
    (∀ calls token, (s.after calls).next.1 = .ok token →
      token.Spelled ∧
      (token.kind.isLiteral → ∀ (b : Builder) (negative : Bool), ∃ number, b.literal negative token =
        .ok { b with awaiting := .operator (.leaf b.made number), made := b.made + 1 }) ∧
      (token.kind = .integer → ∀ (negative : Bool) (zeros : Nat), ∃ number,
        Numeral.read? negative token = some number ∧
        Numeral.readInteger? negative (List.replicate zeros '0' ++ token.text.toList) =
          some number ∧
        Numeral.Stands ((if negative then -1 else 1) *
          (Nat.ofDigits 10 (token.text.toList.map Numeral.digitValue).reverse : ℕ)) number)) ∧
    (∀ message, (parse source symbols).tree = .error (.malformedNumber message) →
      s.scan.2.1 = .error (.malformedNumber message)) ∧
    (∀ before token after b, s.scan.1 = before ++ token :: after →
      (Builder.start source).takeAll before = (.ok (), b) →
      (∀ literal, b.awaiting ≠ .operator literal) →
      let negative := negates (before.map Token.kind)
      (token.kind.isLiteral → ∃ number, Numeral.read? negative token = some number ∧ b.take token =
        .ok { b with awaiting := .operator (.leaf b.made number), made := b.made + 1 }) ∧
      (token.kind = .openParen →
        b.take token = if negative then b.negateGroup.map Builder.openGroup else .ok b.openGroup)) ∧
    ∀ tree, (parse source symbols).tree = .ok tree →
      tree.sourceOrder.filterMap (fun node => node.1.number?) = operands [] s.scan.1 := by
  intro s
  refine ⟨fun calls token h => ⟨Scanner.spelled_of_next h, ?_, ?_⟩,
    fun message => malformedNumber_of_parse, ?_, fun tree => numbers_of_parse⟩
  · intro literal b negative
    obtain ⟨number, read⟩ := Option.isSome_iff_exists.mp (Scanner.readable_next h literal negative)
    exact ⟨number, by rw [Builder.literal, read]; rfl⟩
  · intro integer negative zeros
    obtain ⟨hne, digits⟩ := (Scanner.spelled_of_next h).integer integer
    have spelled : Numeral.Spelled false token.text.toList := List.all_eq_true.mpr digits
    obtain ⟨number, read, stands⟩ := Numeral.exists_stands spelled hne negative
    refine ⟨number, by rw [Numeral.read?, integer]; exact read, ?_, ?_⟩
    · rw [Numeral.readInteger?_zeros hne, read]
    · rw [← Numeral.value_eq_ofDigits]
      cases negative <;> simpa using stands
  · intro before token after b split taken operand
    have ready := ready_of_takeAll split taken operand
    refine ⟨fun literal => ?_, Builder.take_openParen ready⟩
    have mem : token ∈ s.scan.1 := by simp [split]
    obtain ⟨number, read⟩ :=
      Option.isSome_iff_exists.mp (Scanner.readable_of_mem_scan s token mem literal _)
    exact ⟨number, read, Builder.take_literal ready literal read⟩

/-- The least word is exact behind a minus sign only. The sign before the group is not one of the
literal in it. -/
theorem literals_about_least_word :
    let source := "-9'223372036854775808+9223372036854775808/-(+.5"
    let least : Token := ⟨.integer, "9223372036854775808", 1⟩
    (∃ number, Numeral.readInteger? true ("00".toList ++ least.text.toList) = some number ∧
      Numeral.Stands (-9223372036854775808) number) ∧
    (∃ number, Numeral.readInteger? false ("00".toList ++ least.text.toList) = some number ∧
      Numeral.Stands 9223372036854775808 number) ∧
    (∃ number, Numeral.read? true least = some number ∧
      { Builder.start source with awaiting := .signed true }.take least =
        .ok { Builder.start source with awaiting := .operator (.leaf 0 number), made := 1 }) ∧
    (∃ tree, (parse source .standard).tree = .ok tree ∧
      tree.sourceOrder.filterMap (fun node => node.1.number?) =
        [.integer Int64.minValue, .float (Numeral.nearestFloat false 9223372036854775808 0),
          .integer (-1), .float (Numeral.nearestFloat false 5 1)]) ∧
    (Scanner.ofSource "1.2.3" .standard).scan.2.1 = .error (.malformedNumber
      (Text.pointAt "two points in one number are not allowed" "1.2.3" 3)) := by
  intro source least
  obtain ⟨literals, -, signs, numbers⟩ := literals_exact_iff_fit source .standard
  obtain ⟨-, -, reads⟩ := literals 1 least (eq_ok_of_toOption (by decide +kernel))
  have digits : Nat.ofDigits 10 (least.text.toList.map Numeral.digitValue).reverse =
      9223372036854775808 := by
    decide +kernel
  have stands (negative : Bool) := reads rfl negative 2
  rw [digits] at stands
  obtain ⟨below, -, zeros, low⟩ := stands true
  obtain ⟨above, -, zeros', high⟩ := stands false
  obtain ⟨after, split⟩ : ∃ after, (Scanner.ofSource source .standard).scan.1 =
      [⟨.operator .subtract, "-", 0⟩] ++ least :: after :=
    ⟨(Scanner.ofSource source .standard).scan.1.drop 2, by decide +kernel⟩
  obtain ⟨tree, h⟩ := Option.isSome_iff_exists.mp
    (by decide +kernel : (parse source .standard).tree.toOption.isSome = true)
  have h := eq_ok_of_toOption h
  refine ⟨⟨below, zeros, low⟩, ⟨above, zeros', high⟩, ?_, ?_, ?_⟩
  · exact (signs _ least after _ split rfl (by simp)).1 rfl
  · exact ⟨tree, h, (numbers tree h).trans (by decide +kernel)⟩
  · exact (literals_exact_iff_fit "1.2.3" .standard).2.1 _ (eq_error_of_of? (by decide +kernel))

end Parse
end Reckoner

import Reckoner.Proofs.Continuation
import Reckoner.Proofs.Value

/-! Expressions that break off. Main statement: behind an operator or an opening parenthesis a zero
that is written makes the same tree as one that is supplied, and behind an operand closing
parentheses may be written or left out. -/
namespace Reckoner
open Numeral.Symbols (standard)
open Reckoner.Language (endsOperand)

namespace Language

/-- The kinds behind which there must be an operand. -/
def opensOperand (kind : Token.Kind) : Bool :=
  kind = .openParen || kind.operator?.isSome

theorem endsOperand_of_opensOperand {kind : Token.Kind} (h : opensOperand kind = true) :
    endsOperand kind = false := by
  cases kind <;> first | rfl | contradiction

end Language
open Reckoner.Language (opensOperand endsOperand_of_opensOperand)

namespace Stack

/-- How tokens end decides what the machine awaits that can finish behind them. -/
theorem last_of_finish {s : Stack} {tokens : List Token} {tree : Tree}
    (ht : start.takeAll tokens = some s) (hf : s.finish = some tree) :
    ∃ last, tokens.getLast? = some last ∧
      (opensOperand last.kind = true ∧ s.awaiting = .operand ∨
        endsOperand last.kind = true ∧ ∃ operand, s.awaiting = .operator operand) := by
  rcases List.eq_nil_or_concat tokens with rfl | ⟨before, last, rfl⟩
  · obtain rfl := Option.some.inj ht
    contradiction
  rw [List.concat_eq_append] at ht ⊢
  obtain ⟨s₁, -, step⟩ := step_of_takeAll_concat ht
  refine ⟨last, List.getLast?_concat, ?_⟩
  cases step with
  | opened _ hk | negated _ hk | operated _ _ _ hk => exact .inl ⟨by rw [hk]; rfl, rfl⟩
  | signed => contradiction
  | literal _ _ _ hk => exact .inr ⟨by rw [endsOperand, hk, Bool.true_or], _, rfl⟩
  | closed operand ha hk => exact .inr ⟨by rw [hk]; rfl, operand, ha⟩

theorem finish_zero {s : Stack} {tree : Tree} (ha : s.awaiting = .operand)
    (hf : s.finish = some tree) {token : Token} (hk : token.kind = .integer)
    (text : token.text = "0") : ∃ s', s.take token = some s' ∧ s'.finish = some tree := by
  refine ⟨_, take_zero ha hk text, ?_⟩
  simp only [finish, ha] at hf
  split at hf
  · contradiction
  · exact hf

theorem finish_closing {s : Stack} {operand tree : Tree} (ha : s.awaiting = .operator operand)
    (hf : s.finish = some tree) {tokens : List Token}
    (hk : ∀ token ∈ tokens, token.kind = .closeParen) :
    ∃ s', s.takeAll tokens = some s' ∧ s'.finish = some tree := by
  obtain ⟨s', ht, hframes, ha'⟩ := takeAll_closing ha hk
  simp only [finish, ha] at hf
  refine ⟨s', ht, ?_⟩
  rw [finish, ha', hframes]
  exact hf

end Stack

namespace Scanner

theorem scan_zero (source : String) (cursor : Nat) :
    (Scanner.mk source standard (Text.characters "0") cursor).scan.1 =
        [⟨.integer, "0", cursor⟩] ∧
      ∃ last, (Scanner.mk source standard (Text.characters "0") cursor).scan.2.1 = .ok last := by
  have digits : ∀ d ∈ ['0'], d.isDigit := List.all_eq_true.mp (by decide)
  exact scan_of_end (scan_digits source cursor digits (fun _ => Numeral.isGrouping_of_isDigit)
    standard.ends_nil (by simp)) rfl

theorem scan_closing (source : String) (cursor closings : Nat) :
    (∀ token ∈ (Scanner.mk source standard (List.replicate closings ")") cursor).scan.1,
        token.kind = .closeParen) ∧
      ∃ last, (Scanner.mk source standard (List.replicate closings ")") cursor).scan.2.1 =
        .ok last := by
  induction closings generalizing cursor with
  | zero =>
    rw [List.replicate_zero, scan_of_nil rfl]
    exact ⟨fun _ mem => absurd mem List.not_mem_nil, _, rfl⟩
  | succ closings ih =>
    obtain ⟨kinds, last, found⟩ := ih (cursor + 1)
    rw [List.replicate_succ, scan_symbol source cursor (by decide) (by decide) (by decide)
      (by decide)]
    exact ⟨List.forall_mem_cons.mpr ⟨rfl, kinds⟩, last, found⟩

end Scanner

section Parse
variable {source : String} {tree : Tree}

theorem parse_append {more : String} {s : Stack} {last : Token}
    (scanned : (Scanner.ofSource source standard).scan.2.1 = .ok last)
    (taken : Stack.start.takeAll (Scanner.ofSource source standard).scan.1 = some s)
    (printable : ∀ c ∈ more.toList, Text.IsPrintable c)
    (keeps : standard.Keeps (Text.characters more))
    (ends : (Scanner.ofSource source standard).scan.1.getLast?.any (·.kind.isLiteral) →
      standard.Ends (Text.characters more))
    (goesOn : ∀ cursor,
      let behind := (Scanner.mk (source ++ more) standard (Text.characters more) cursor).scan
      (∃ last, behind.2.1 = .ok last) ∧ ∃ s', s.takeAll behind.1 = some s' ∧ s'.finish = some tree) :
    (parse (source ++ more) standard).tree = .ok tree := by
  obtain ⟨cursor, whole⟩ := Scanner.scan_append scanned printable keeps ends
  obtain ⟨⟨final, found⟩, s', ht, hf⟩ := goesOn cursor
  rw [parse_eq_ok_iff, whole]
  refine ⟨final, s', found, ?_, hf⟩
  rw [Scanner.scanBehind, Stack.takeAll_append, taken]
  exact ht

theorem parse_append_zero {s : Stack} {last final : Token}
    (scanned : (Scanner.ofSource source standard).scan.2.1 = .ok final)
    (taken : Stack.start.takeAll (Scanner.ofSource source standard).scan.1 = some s)
    (hlast : (Scanner.ofSource source standard).scan.1.getLast? = some last)
    (hk : opensOperand last.kind = true) (ha : s.awaiting = .operand)
    (hf : s.finish = some tree) : (parse (source ++ "0") standard).tree = .ok tree := by
  refine parse_append scanned taken (Text.printable_of_all (by decide)) ?_ ?_ fun cursor => ?_
  · rintro _ ⟨⟩
    decide
  · intro literal
    have other := (Bool.or_eq_false_iff.mp (endsOperand_of_opensOperand hk)).1
    rw [hlast, Option.any_some, other] at literal
    contradiction
  · obtain ⟨tokens, found⟩ := Scanner.scan_zero (source ++ "0") cursor
    obtain ⟨s', ht, hf'⟩ := Stack.finish_zero ha hf
      (rfl : (Token.mk .integer "0" cursor).kind = .integer) rfl
    refine ⟨found, s', ?_, hf'⟩
    rw [tokens, Stack.takeAll_cons, ht]
    rfl

theorem parse_append_closing {s : Stack} {final : Token} {operand : Tree}
    (scanned : (Scanner.ofSource source standard).scan.2.1 = .ok final)
    (taken : Stack.start.takeAll (Scanner.ofSource source standard).scan.1 = some s)
    (ha : s.awaiting = .operator operand) (hf : s.finish = some tree) (closings : Nat) :
    (parse (source ++ String.ofList (List.replicate closings ')')) standard).tree = .ok tree := by
  have characters : Text.characters (String.ofList (List.replicate closings ')')) =
      List.replicate closings ")" := by
    rw [Text.characters, String.toList_ofList, List.map_replicate]
    rfl
  have head : ∀ c ∈ (List.replicate closings ")").head?, c = ")" := fun c mem =>
    List.eq_of_mem_replicate (List.mem_of_mem_head? mem)
  refine parse_append scanned taken ?_ ?_ ?_ fun cursor => ?_
  · rw [String.toList_ofList]
    intro c mem
    rw [List.eq_of_mem_replicate mem]
    decide
  · rw [characters]
    intro c mem
    rw [head c mem]
    decide
  · rw [characters]
    intro _ c mem
    rw [head c mem]
    decide
  · obtain ⟨kinds, found⟩ := Scanner.scan_closing
      (source ++ String.ofList (List.replicate closings ')')) cursor closings
    rw [characters]
    exact ⟨found, Stack.finish_closing ha hf kinds⟩

/-- What is parsed ends either in an operator or opening parenthesis or else in a literal or closing
parenthesis. In the one case a zero put behind it makes the same tree, and in the other as many
closing parentheses as one likes do. -/
theorem completion_parses_alike (h : (parse source standard).tree = .ok tree) :
    ∃ last, (Scanner.ofSource source standard).scan.1.getLast? = some last ∧
      opensOperand last.kind = !endsOperand last.kind ∧
      (opensOperand last.kind = true → (parse (source ++ "0") standard).tree = .ok tree) ∧
      (endsOperand last.kind = true → ∀ closings,
        (parse (source ++ String.ofList (List.replicate closings ')')) standard).tree = .ok tree) := by
  obtain ⟨final, s, scanned, taken, hf⟩ := parse_eq_ok_iff.mp h
  obtain ⟨last, hlast, ⟨opens, ha⟩ | ⟨ends, operand, ha⟩⟩ := Stack.last_of_finish taken hf
  · have other := endsOperand_of_opensOperand opens
    refine ⟨last, hlast, by rw [opens, other]; rfl, fun _ => ?_, fun ends => ?_⟩
    · exact parse_append_zero scanned taken hlast opens ha hf
    · rw [other] at ends
      contradiction
  · have other : opensOperand last.kind = false := by
      rw [← Bool.not_eq_true]
      intro opens
      rw [endsOperand_of_opensOperand opens] at ends
      contradiction
    refine ⟨last, hlast, by rw [other, ends]; rfl, fun opens => ?_, fun _ => ?_⟩
    · rw [other] at opens
      contradiction
    · exact parse_append_closing scanned taken ha hf

/-- A group that is negated and left open, without its last operand and with blanks behind it. -/
theorem completion_of_negated_group :
    (∃ tree, (parse "-(2*3+(\n" standard).tree = .ok tree ∧
      (parse ("-(2*3+(\n" ++ "0") standard).tree = .ok tree) ∧
    ∃ tree, (parse "-(1'+2_ " standard).tree = .ok tree ∧
      (parse ("-(1'+2_ " ++ String.ofList (List.replicate 3 ')')) standard).tree = .ok tree := by
  obtain ⟨first, h⟩ := Option.isSome_iff_exists.mp
    (by decide +kernel : (parse "-(2*3+(\n" standard).tree.toOption.isSome = true)
  obtain ⟨second, h'⟩ := Option.isSome_iff_exists.mp
    (by decide +kernel : (parse "-(1'+2_ " standard).tree.toOption.isSome = true)
  have h := eq_ok_of_toOption h
  have h' := eq_ok_of_toOption h'
  obtain ⟨last, hlast, -, opens, -⟩ := completion_parses_alike h
  obtain ⟨last', hlast', -, -, ends⟩ := completion_parses_alike h'
  have found : (Scanner.ofSource "-(2*3+(\n" standard).scan.1.getLast?.any
      (opensOperand ·.kind) = true := by decide +kernel
  have found' : (Scanner.ofSource "-(1'+2_ " standard).scan.1.getLast?.any
      (endsOperand ·.kind) = true := by decide +kernel
  rw [hlast] at found
  rw [hlast'] at found'
  exact ⟨⟨first, h, opens found⟩, second, h', ends found' 3⟩

end Parse

end Reckoner

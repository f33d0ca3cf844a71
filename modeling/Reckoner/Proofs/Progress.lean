import Reckoner.Proofs.Caret

/-! Progress of a scanner. Main statement: the cursor never goes back and stays among the clusters; a
token before the end of input and a malformed numeral take it on; from the end of input, or from a
cluster outside ASCII, calls find the same for ever, and they come there within one call more than
there are clusters. -/
namespace Reckoner
namespace Scanner
variable {s t : Scanner}

theorem Passes.size_eq {passed : List String} (h : s.Passes passed t) :
    t.cursor + t.rest.length = s.cursor + s.rest.length := by
  rw [h.cursor, h.rest, List.length_append]
  omega

/-- The answers that take the scanner no further. -/
inductive Final : Except Error Token → Prop
  | endOfInput {token : Token} (kind : token.kind = .endOfInput) : Final (.ok token)
  | foreign (message : String) : Final (.error (.characterTooLarge message))

theorem not_final_token {token : Token} (before : token.kind ≠ .endOfInput) :
    ¬Final (.ok token) := by
  intro h
  cases h with
  | endOfInput kind => exact before kind

theorem not_final_malformedNumber (message : String) :
    ¬Final (.error (.malformedNumber message)) := by
  intro h
  cases h

theorem Gathers.cursor_lt {text : String} {pointed : Bool} {pieces : List Numeral.Piece}
    {read : Option (String × Bool) × Scanner} (h : s.Gathers text pointed pieces read)
    (some : pieces ≠ []) : s.cursor < read.2.cursor := by
  rw [h.passed.cursor]
  cases pieces with
  | nil => contradiction
  | cons p pieces =>
    simp only [List.flatMap_cons, Numeral.Piece.clusters, List.cons_append, List.length_cons]
    omega

/-- Where a token is looked for, the scanner stays behind a final answer and goes on behind any
other. -/
theorem Finds.stays_or_moves {answer : Except Error Token × Scanner} (h : s.Finds answer) :
    Final answer.1 ∧ answer.2 = s ∨ ¬Final answer.1 ∧ s.cursor < answer.2.cursor := by
  cases h with
  | endOfInput => exact .inl ⟨.endOfInput rfl, rfl⟩
  | foreign => exact .inl ⟨.foreign _, rfl⟩
  | @symbol c rest here =>
    refine .inr ⟨not_final_token (kind_ofCluster_ne_endOfInput c), ?_⟩
    rw [(passes_advance here).cursor]
    exact Nat.lt_succ_self _
  | @numeral p pieces pointed stop gathers =>
    refine .inr ⟨not_final_token ?_, gathers.cursor_lt (List.cons_ne_nil _ _)⟩
    cases pointed <;> simp
  | @secondPoint pieces stop gathers =>
    refine .inr ⟨not_final_malformedNumber _, gathers.cursor_lt ?_⟩
    intro none
    have once := (gathers.second rfl).1
    rw [none] at once
    contradiction
  | lonePoint point gathers =>
    exact .inr ⟨not_final_malformedNumber _, gathers.cursor_lt (List.cons_ne_nil _ _)⟩

theorem cursor_le_skip (s : Scanner) : s.cursor ≤ s.skip.cursor :=
  Nat.le_add_right _ _

theorem cursor_le_next (s : Scanner) : s.cursor ≤ s.next.2.cursor := by
  have le := s.cursor_le_skip
  rcases s.finds_next.stays_or_moves with ⟨-, stays⟩ | ⟨-, moves⟩
  · rwa [stays]
  · omega

theorem cursor_lt_next (h : ¬Final s.next.1) : s.cursor < s.next.2.cursor := by
  have le := s.cursor_le_skip
  rcases s.finds_next.stays_or_moves with ⟨final, -⟩ | ⟨-, moves⟩
  · contradiction
  · omega

theorem next_of_final (h : Final s.next.1) : s.next.2.next = s.next := by
  rcases s.finds_next.stays_or_moves with ⟨-, stays⟩ | ⟨other, -⟩
  · calc s.next.2.next
      _ = s.skip.skip.tokenHere := by rw [stays, next]
      _ = s.next := by rw [skip_eq_self s.settled_skip, next]
  · contradiction

section After
variable (s : Scanner)

theorem after_succ (calls : Nat) : s.after (calls + 1) = (s.after calls).next.2 := by
  induction calls generalizing s with
  | zero => rfl
  | succ calls ih => exact ih s.next.2

theorem cursor_mono {calls later : Nat} (le : calls ≤ later) :
    (s.after calls).cursor ≤ (s.after later).cursor := by
  induction le with
  | refl => exact Nat.le_refl _
  | @step later _ ih =>
    rw [after_succ]
    exact Nat.le_trans ih (cursor_le_next _)

theorem size_after (calls : Nat) :
    (s.after calls).cursor + (s.after calls).rest.length = s.cursor + s.rest.length := by
  obtain ⟨passed, h⟩ := s.exists_passes_after calls
  exact h.size_eq

theorem next_after_of_final {calls later : Nat} (final : Final (s.after calls).next.1)
    (lt : calls < later) :
    (s.after later).next = (s.after calls).next ∧ s.after later = s.after (calls + 1) := by
  induction lt with
  | refl =>
    rw [after_succ]
    exact ⟨next_of_final final, rfl⟩
  | @step later _ ih =>
    obtain ⟨same, stays⟩ := ih
    rw [after_succ s later, same, ← after_succ, ← stays]
    exact ⟨same, rfl⟩

/-- As long as no answer is final, each call passes a cluster at least. -/
theorem exists_final : ∃ calls ≤ s.rest.length, Final (s.after calls).next.1 := by
  induction h : s.rest.length using Nat.strong_induction_on generalizing s with
  | _ n ih =>
    subst h
    by_cases final : Final s.next.1
    · exact ⟨0, Nat.zero_le _, final⟩
    · have moves := cursor_lt_next final
      have size := s.size_after 1
      change s.next.2.cursor + s.next.2.rest.length = _ at size
      obtain ⟨calls, le, found⟩ := ih s.next.2.rest.length (by omega) s.next.2 rfl
      exact ⟨calls + 1, by omega, found⟩

end After
end Scanner

/-- A scanner goes on with every call until it comes to the end of input or to a cluster outside
ASCII, and stays there. It comes there within one call more than there are clusters. -/
theorem scanner_progress (source : String) (symbols : Numeral.Symbols) :
    let size := (Text.clusters source).length
    let reached := (Scanner.ofSource source symbols).after
    (∀ calls later, calls ≤ later →
      (reached calls).cursor ≤ (reached later).cursor ∧ (reached later).cursor ≤ size) ∧
    (∀ calls token, (reached calls).next.1 = .ok token → token.kind ≠ .endOfInput →
      (reached calls).cursor < (reached (calls + 1)).cursor) ∧
    (∀ calls message, (reached calls).next.1 = .error (.malformedNumber message) →
      (reached calls).cursor < (reached (calls + 1)).cursor) ∧
    (∀ calls token, (reached calls).next.1 = .ok token → token.kind = .endOfInput →
      ∀ later, calls < later →
        (reached later).next.1 = .ok token ∧ (reached later).cursor = size) ∧
    (∀ calls message, (reached calls).next.1 = .error (.characterTooLarge message) →
      ∀ later, calls < later → (reached later).next.1 = .error (.characterTooLarge message) ∧
        (reached later).cursor = (reached (calls + 1)).cursor) ∧
    ∃ calls ≤ size, (∃ token, (reached calls).next.1 = .ok token ∧ token.kind = .endOfInput) ∨
      ∃ message, (reached calls).next.1 = .error (.characterTooLarge message) := by
  intro size reached
  have whole (calls : Nat) : (reached calls).cursor + (reached calls).rest.length = size := by
    have h := (Scanner.ofSource source symbols).size_after calls
    rwa [Scanner.ofSource, Nat.zero_add] at h
  have step (calls : Nat) : reached (calls + 1) = (reached calls).next.2 :=
    Scanner.after_succ _ calls
  have mono {calls later : Nat} (le : calls ≤ later) :
      (reached calls).cursor ≤ (reached later).cursor := Scanner.cursor_mono _ le
  have stays {calls later : Nat} (final : Scanner.Final (reached calls).next.1)
      (lt : calls < later) : (reached later).next = (reached calls).next ∧
        reached later = reached (calls + 1) := Scanner.next_after_of_final _ final lt
  have ends : ∃ calls ≤ size, Scanner.Final (reached calls).next.1 :=
    (Scanner.ofSource source symbols).exists_final
  clear_value reached size
  refine ⟨?_, ?_, ?_, ?_, ?_, ?_⟩
  · intro calls later le
    have bound := whole later
    exact ⟨mono le, by omega⟩
  · intro calls token found before
    rw [step]
    exact Scanner.cursor_lt_next (found ▸ Scanner.not_final_token before)
  · intro calls message found
    rw [step]
    exact Scanner.cursor_lt_next (found ▸ Scanner.not_final_malformedNumber message)
  · intro calls token found ended later lt
    obtain ⟨same, stop⟩ := stays (found ▸ .endOfInput ended) lt
    have answer : (reached calls).next = (.ok token, (reached calls).next.2) := Prod.ext found rfl
    obtain ⟨skipped, none⟩ := Scanner.end_of_next answer ended
    have bound := whole (calls + 1)
    rw [step, skipped, none] at bound
    rw [same, stop, step, skipped]
    exact ⟨found, bound⟩
  · intro calls message found later lt
    obtain ⟨same, stop⟩ := stays (found ▸ .foreign message) lt
    rw [same, stop]
    exact ⟨found, rfl⟩
  · obtain ⟨calls, le, final⟩ := ends
    refine ⟨calls, le, ?_⟩
    generalize (reached calls).next.1 = found at final
    cases final with
    | endOfInput kind => exact .inl ⟨_, rfl, kind⟩
    | foreign message => exact .inr ⟨message, rfl⟩

/-- The numeral breaks off at its second point; what follows is scanned from there, up to the euro
sign and not behind it. -/
theorem progress_behind_second_point :
    let reached := (Scanner.ofSource "1.2,.3 €4" .standard).after
    (reached 0).cursor < (reached 1).cursor ∧ (reached 1).cursor < (reached 2).cursor ∧
      ∃ message, ∀ later, 2 < later →
        (reached later).next.1 = .error (.characterTooLarge message) ∧
          (reached later).cursor = (reached 3).cursor := by
  intro reached
  obtain ⟨-, token, malformed, -, foreign, -⟩ := scanner_progress "1.2,.3 €4" .standard
  refine ⟨malformed 0 (Text.pointAt "two points in one number are not allowed" "1.2,.3 €4" 4) ?_, ?_,
    Text.pointAt "character too large" "1.2,.3 €4" 7, foreign 2 _ ?_⟩
  · exact eq_error_of_of? (by decide +kernel)
  · exact token 1 ⟨.decimal, ".3", 4⟩ (eq_ok_of_toOption (by decide +kernel)) (by decide)
  · exact eq_error_of_of? (by decide +kernel)

end Reckoner

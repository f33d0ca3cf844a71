import Reckoner.Proofs.Agreement

/-! The value of a source. Main statement: where no float occurs, it is the value of the tokens as
they are conventionally read. -/
namespace Reckoner
open Reckoner.Language

namespace Stack

theorem takeAll_closing {s : Stack} {operand : Tree} (ha : s.awaiting = .operator operand)
    {tokens : List Token} (hk : ∀ token ∈ tokens, token.kind = .closeParen) :
    ∃ s', s.takeAll tokens = some s' ∧ s'.frames = s.frames ∧ s'.awaiting = .operator operand := by
  induction tokens generalizing s with
  | nil => exact ⟨s, rfl, rfl, ha⟩
  | cons token rest ih =>
    obtain ⟨here, behind⟩ := List.forall_mem_cons.mp hk
    have hclose : s.take token = some s.closeGroup := take_of_step (.closed operand ha here)
    obtain ⟨s', ht, hframes, ha'⟩ := ih (s := s.closeGroup) ha behind
    refine ⟨s', ?_, hframes, ha'⟩
    rw [takeAll_cons, hclose]
    exact ht

theorem closeGroup_of_step {s s' : Stack} {token : Token} (hk : token.kind = .closeParen)
    (h : Step s token s') : s' = s.closeGroup := by
  cases h with
  | closed => rfl
  | opened _ hk' | negated _ hk' | signed _ _ hk' | operated _ _ _ hk' =>
    rw [hk] at hk'
    contradiction
  | literal _ _ _ hk' =>
    rw [hk] at hk'
    contradiction

theorem closeGroup_eq_self {s : Stack} (h : s.depth = 0) : s.closeGroup = s := by
  rw [closeGroup, if_pos h, ← h]

/-- Parentheses that close no group change nothing, and those that are missing change no frame. -/
theorem takeAll_balanced {s s' : Stack} {tokens : List Token} {groups : Nat} {operand : Tree}
    (leveled : s.Leveled groups) (few : groups + opens tokens < maxGroups)
    (ht : s.takeAll tokens = some s') (ha : s'.awaiting = .operator operand) :
    ∃ s₁, s.takeAll (balanced groups tokens) = some s₁ ∧ s₁.frames = s'.frames ∧
      s₁.awaiting = .operator operand := by
  induction tokens generalizing s groups with
  | nil =>
    obtain rfl := Option.some.inj ht
    exact takeAll_closing ha fun token mem => by rw [List.eq_of_mem_replicate mem]; rfl
  | cons token rest ih =>
    obtain ⟨s₂, step, ht⟩ := step_of_takeAll_cons ht
    have hle := groupsAfter_add_opens_le groups token rest
    have leveled₂ := leveled_step leveled (by omega) step
    have ih := ih leveled₂ (by omega) ht
    rw [balanced]
    split
    next hc =>
      obtain ⟨hk, rfl⟩ := hc
      have hzero : s.depth = 0 := UInt32.toNat_inj.mp leveled.depth
      have hsame : s₂ = s := (closeGroup_of_step hk step).trans (closeGroup_eq_self hzero)
      rw [hk, hsame] at ih
      exact ih
    next =>
      rw [takeAll_cons, take_of_step step]
      exact ih

theorem take_zero {s : Stack} (ha : s.awaiting = .operand) {token : Token}
    (hk : token.kind = .integer) (text : token.text = "0") :
    s.take token =
      some { s with awaiting := .operator (.leaf s.made (.integer 0)), made := s.made + 1 } := by
  have hr : Numeral.read? false token = some (.integer 0) := by
    rw [Numeral.read?, hk, text]
    decide +kernel
  exact take_of_step (.literal false (.integer 0) (.inr ⟨ha, rfl⟩) (by rw [hk]; rfl) hr)

theorem endsOperand_last {s : Stack} {tokens : List Token} (h : start.takeAll tokens = some s) :
    (tokens.getLast?.map Token.kind).any endsOperand = s.phase.after := by
  have hr : (Phase.operand false).run (tokens.map Token.kind) = some s.phase := phase_takeAll h
  rcases List.eq_nil_or_concat tokens with rfl | ⟨before, token, rfl⟩
  · obtain rfl := Option.some.inj h
    rfl
  · rw [List.concat_eq_append, List.map_append] at hr
    rw [List.concat_eq_append, List.getLast?_concat, Phase.after_run hr]
    rfl

theorem takeAll_supplied {s : Stack} {tokens : List Token} {tree : Tree}
    (h : start.takeAll tokens = some s) (hf : s.finish = some tree) :
    ∃ s' operand, start.takeAll (supplied tokens) = some s' ∧ s'.awaiting = .operator operand ∧
      assemble s'.frames operand = tree := by
  rw [supplied, endsOperand_last h]
  cases ha : s.awaiting with
  | operand =>
    simp only [finish, ha] at hf
    split at hf
    · contradiction
    obtain rfl := Option.some.inj hf
    rw [if_neg (by simp [phase, ha, Phase.after]), takeAll_append, h, Option.bind_some,
      takeAll_cons, take_zero ha rfl rfl]
    exact ⟨_, _, rfl, rfl, rfl⟩
  | signed => simp [finish, ha] at hf
  | operator operand =>
    simp only [finish, ha] at hf
    obtain rfl := Option.some.inj hf
    rw [if_pos (by simp [phase, ha, Phase.after]), List.append_nil]
    exact ⟨s, operand, h, ha, rfl⟩

end Stack

section Tokens
variable {tokens : List Token} {tree : Tree} {s : Stack} (h : Stack.start.takeAll tokens = some s)
  (hf : s.finish = some tree)
include h hf

theorem exists_reads_completed (inner : ∀ token ∈ tokens, token.kind ≠ .endOfInput) :
    ∃ e, Reads .sum (completed tokens) e := by
  obtain ⟨s', operand, ht, ha, -⟩ := Stack.takeAll_supplied h hf
  have hr : (Phase.operand false).run _ = some s'.phase := Stack.phase_takeAll ht
  have hp : s'.phase = .operator := by simp [Stack.phase, ha]
  rw [hp] at hr
  refine exists_reads_balanced stands_start ?_ hr
  intro token mem
  rcases List.mem_append.mp mem with mem | mem
  · exact inner token mem
  · split at mem
    · exact absurd mem List.not_mem_nil
    · rw [List.mem_singleton.mp mem]
      decide

theorem denotes_of_reads (few : opens tokens < maxGroups) {e : Expression}
    (hr : Reads .sum (completed tokens) e) : Denotes tree e := by
  obtain ⟨s', operand, ht, ha, rfl⟩ := Stack.takeAll_supplied h hf
  obtain ⟨s₁, ht₁, hframes, ha₁⟩ := Stack.takeAll_balanced Stack.leveled_start
    (by rw [opens_supplied]; omega) ht ha
  have reached := Stack.reaches_of_reads hr Stack.start s₁ rfl
    (by rw [opens_completed]; change 0 + _ < _; omega) (by simp [Stack.start]) ht₁
  obtain ⟨frames, operand', hs, ha', -, denotes⟩ := reached.read
  rw [ha₁] at ha'
  obtain rfl := Awaiting.operator.inj ha'
  rwa [← hframes, hs]

end Tokens

theorem Tree.mem_numbers_iff {tree : Tree} {n : Number} :
    n ∈ tree.numbers ↔ ∃ id, (.number n, id) ∈ tree.sourceOrder := by
  induction tree with
  | hole => simp [numbers, sourceOrder]
  | leaf id m => simp [numbers, sourceOrder]
  | op id operator level left right ihl ihr =>
    simp [numbers, mem_sourceOrder_op, ihl, ihr, exists_or]

theorem read_of_mem_entries {p : Phase} {groups : Nat} {tokens : List Token} {n : Number}
    {next : Option Nat} (h : .literal n next ∈ entries p groups tokens) :
    ∃ negative token, Numeral.read? negative token = some n := by
  induction tokens generalizing p groups with
  | nil => exact absurd h List.not_mem_nil
  | cons token rest ih =>
    rw [entries] at h
    rcases List.mem_append.mp h with h | h
    · unfold Phase.adds at h
      split at h <;> simp at h
      all_goals exact ⟨_, _, h.1⟩
    · split at h
      · exact ih h
      · exact absurd h List.not_mem_nil

theorem read_of_mem_arena {tokens : List Token} {n : Number} {next : Option Nat}
    (h : .literal n next ∈ arena tokens) : ∃ negative token, Numeral.read? negative token = some n := by
  rcases List.mem_append.mp h with h | h
  · exact read_of_mem_entries h
  · cases hr : (Phase.operand false).run (tokens.map Token.kind) with
    | none => simp [hr] at h
    | some p => cases p <;> simp [hr, Phase.lacks] at h

section Parse
variable {source : String} {symbols : Numeral.Symbols} {tree : Tree}

theorem integer_of_parse (h : (parse source symbols).tree = .ok tree) {n : Number}
    (hn : n ∈ tree.numbers) (hf : n.isFloat = false) : ∃ w, n = .integer w := by
  obtain ⟨id, mem⟩ := Tree.mem_numbers_iff.mp hn
  rw [(sourceOrder_of_parse h).2] at mem
  obtain ⟨made, hmade, heq⟩ := List.mem_map.mp (List.fst_mem_of_mem_zipIdx mem)
  cases made with
  | literal m next =>
    obtain rfl := Content.number.inj heq
    obtain ⟨negative, token, hr⟩ := read_of_mem_arena hmade
    obtain ⟨w, hw, -⟩ := Numeral.read?_exact hr hf
    exact ⟨w, hw⟩
  | minusOne | zero => exact ⟨_, (Content.number.inj heq).symm⟩
  | product | operation => contradiction

/-- Evaluation agrees with ordinary arithmetic. With no float among the numbers of the tree and the
results on the way, the value is that of the tokens as they are read, parentheses dropped or
supplied; and if there is an error, the reading divides by zero. -/
theorem evaluate_agrees
    (few : opens (Scanner.ofSource source symbols).scan.1 < maxGroups)
    (h : (parse source symbols).tree = .ok tree)
    (numbers : ∀ n ∈ tree.numbers, n.isFloat = false)
    (results : ∀ reduction ∈ tree.reduceAll.1, reduction.result.isFloat = false) :
    (∃ e, Reads .sum (completed (Scanner.ofSource source symbols).scan.1) e) ∧
    ∀ e, Reads .sum (completed (Scanner.ofSource source symbols).scan.1) e →
      (∀ v, tree.evaluate = .ok v → ∃ q, v.rational? = some q ∧ e.meaning.value? = some q) ∧
      ∀ error, tree.evaluate = .error error →
        error = .divisionByZero ∧ e.meaning.dividesByZero = true := by
  obtain ⟨final, s, -, ht, hf⟩ := parse_eq_ok_iff.mp h
  have complete := (sourceOrder_of_parse h).1
  have exact : ∀ n ∈ tree.numbers, ∃ x, n.Holds x := by
    intro n hn
    obtain ⟨w, rfl⟩ := integer_of_parse h hn (numbers n hn)
    exact ⟨w.toInt, rfl⟩
  have postorder := Tree.reduceAll_eq_postorder complete
  rw [postorder] at results
  obtain ⟨values, errors⟩ := Tree.holds_postorder complete exact results
  refine ⟨exists_reads_completed ht hf (Scanner.kind_ne_endOfInput_of_mem_scan _), ?_⟩
  intro e hr
  have denotes : tree.meaning = e.meaning := denotes_of_reads ht hf few hr numbers
  rw [Tree.evaluate, postorder, ← denotes]
  refine ⟨fun v hv => ?_, errors⟩
  obtain ⟨q, hq, hv⟩ := values v hv
  exact ⟨q, hv.rational?_eq, hq⟩

theorem value_of_negated_power :
    ∃ tree e, (parse "-(2)^2*3-(8/6" .standard).tree = .ok tree ∧
      Reads .sum (completed (Scanner.ofSource "-(2)^2*3-(8/6" .standard).scan.1) e ∧
      tree.evaluate = .ok (.fraction ⟨-40, 3⟩) ∧ e.meaning.value? = some (-40 / 3) := by
  have h : (parse "-(2)^2*3-(8/6" .standard).tree = .ok
      (.op 7 .subtract 0
        (.op 5 .multiply 1 (.leaf 6 (.integer 3))
          (.op 1 .multiply 2 (.leaf 0 (.integer (-1)))
            (.op 3 .power 2 (.leaf 2 (.integer 2)) (.leaf 4 (.integer 2)))))
        (.op 9 .divide 4 (.leaf 8 (.integer 8)) (.leaf 10 (.integer 6)))) :=
    eq_ok_of_toOption (by decide +kernel)
  obtain ⟨⟨e, hr⟩, agrees⟩ :=
    evaluate_agrees (by decide +kernel) h (by decide +kernel) (by decide +kernel)
  refine ⟨_, e, h, hr, (and_iff_left_of_imp fun hv => ?_).mpr
    (eq_ok_of_toOption (by decide +kernel))⟩
  obtain ⟨q, hq, he⟩ := (agrees e hr).1 _ hv
  have value : Number.rational? (.fraction ⟨-40, 3⟩) = some (-40 / 3) := by
    rw [Number.rational?, Fraction.rational, show Int64.toInt (-40) = -40 by decide,
      show Int64.toInt 3 = 3 by decide]
    norm_num
  rw [value] at hq
  rw [he, ← hq]

end Parse
end Reckoner

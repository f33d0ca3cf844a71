import Reckoner.Proofs.Stack

/-! The language of expressions: blocks of a literal with the parentheses around it, joined by
operators. Main statement: a source is parsed exactly if its tokens form a sentence, and otherwise
the error is at the first token that no sentence can have there. -/
namespace Reckoner.Language
open Token (Kind)

inductive Sign where
  | plus | minus

def Sign.kind : Sign → Kind
  | plus => .operator .add
  | minus => .operator .subtract

def signKinds (sign? : Option Sign) : List Kind :=
  sign?.toList.map Sign.kind

/-- A parenthesis, perhaps behind a sign. -/
def openingKinds (sign? : Option Sign) : List Kind :=
  signKinds sign? ++ [.openParen]

structure Block where
  openings : List (Option Sign)
  sign? : Option Sign
  literal : { kind : Kind // kind.isLiteral }
  closings : Nat

def Block.kinds (b : Block) : List Kind :=
  b.openings.flatMap openingKinds ++ signKinds b.sign? ++
    b.literal.val :: List.replicate b.closings .closeParen

/-- The last operand may be missing. -/
inductive Ending where
  | block (b : Block)
  | openings (signs : List (Option Sign))

def Ending.kinds : Ending → List Kind
  | block b => b.kinds
  | openings signs => signs.flatMap openingKinds

structure Sentence where
  blocks : List (Block × Operator)
  ending : Ending

def Sentence.kinds (s : Sentence) : List Kind :=
  s.blocks.flatMap (fun p => p.1.kinds ++ [.operator p.2]) ++ s.ending.kinds ++ [.endOfInput]

/-- Something has to stand before a missing operand: an operator or a negated group. -/
def Sentence.Proper (s : Sentence) : Prop :=
  match s.ending with
  | .block _ => True
  | .openings signs => s.blocks ≠ [] ∨ some .minus ∈ signs

def Accepted (kinds : List Kind) : Prop :=
  ∃ s : Sentence, s.Proper ∧ s.kinds = kinds

/-- Some sentence starts with these kinds. -/
def Viable (kinds : List Kind) : Prop :=
  ∃ rest, Accepted (kinds ++ rest)

/-- What is due behind these kinds: what ends an operand behind a literal and its closing
parentheses, what starts one elsewhere. -/
def expectedAfter (kinds : List Kind) : List Kind :=
  if (kinds.reverse.dropWhile (· = .closeParen)).head?.any Kind.isLiteral then Kind.operandEnd
  else Kind.operandStart

/-- The error of a source with these tokens: what stopped the scanner, or the first token that
cannot stand where it does. -/
inductive Violation (source : String) (tokens : List Token) (last : Except Error Token) :
    Error → Prop
  | unscanned (error : Error) (stopped : last = .error error)
      (viable : Viable (tokens.map Token.kind)) : Violation source tokens last error
  | unexpected (before : List Token) (token : Token) (after : List Token)
      (all : tokens ++ last.toOption.toList = before ++ token :: after)
      (viable : Viable (before.map Token.kind))
      (stuck : ¬Viable ((before ++ [token]).map Token.kind)) :
      Violation source tokens last
        (.unexpected source token (expectedAfter (before.map Token.kind)))

/-- What the next kind has to go with; `started` tells that an operation has been made. -/
inductive Phase where
  | operand (started : Bool)
  | signed (negative started : Bool)
  | operator
  | ended

namespace Phase

def next : Phase → Kind → Option Phase
  | operand started, .openParen => some (operand started)
  | operand started, .operator .subtract => some (signed true started)
  | operand started, .operator .add => some (signed false started)
  | operand _, .integer => some operator
  | operand _, .decimal => some operator
  | operand true, .endOfInput => some ended
  | signed negative started, .openParen => some (operand (started || negative))
  | signed _ _, .integer => some operator
  | signed _ _, .decimal => some operator
  | operator, .closeParen => some operator
  | operator, .operator _ => some (operand true)
  | operator, .endOfInput => some ended
  | _, _ => none

def run (p : Phase) (kinds : List Kind) : Option Phase :=
  kinds.foldlM next p

@[simp] theorem run_nil (p : Phase) : p.run [] = some p := rfl

theorem run_cons (p : Phase) (kind : Kind) (rest : List Kind) :
    p.run (kind :: rest) = (p.next kind).bind fun p => p.run rest := by
  simp [run]

theorem next_of_run_cons {p q : Phase} {kind : Kind} {rest : List Kind}
    (h : p.run (kind :: rest) = some q) :
    ∃ p', p.next kind = some p' ∧ p'.run rest = some q := by
  rw [run_cons] at h
  exact Option.bind_eq_some_iff.mp h

theorem run_append (p : Phase) (kinds more : List Kind) :
    p.run (kinds ++ more) = (p.run kinds).bind fun p => p.run more := by
  simp [run]

theorem next_literal {kind : Kind} (h : kind.isLiteral) (started : Bool) :
    (operand started).next kind = some operator := by
  cases kind <;> simp_all [next, Kind.isLiteral]

theorem next_signed_literal {kind : Kind} (h : kind.isLiteral) (negative started : Bool) :
    (signed negative started).next kind = some operator := by
  cases kind <;> simp_all [next, Kind.isLiteral]

end Phase

def Sign.negative : Sign → Bool
  | plus => false
  | minus => true

theorem next_sign (sign : Sign) (started : Bool) :
    (Phase.operand started).next sign.kind = some (.signed sign.negative started) := by
  cases sign <;> rfl

theorem run_openingKinds (sign? : Option Sign) (started : Bool) :
    (Phase.operand started).run (openingKinds sign?) =
      some (.operand (started || sign?.any Sign.negative)) := by
  cases sign? with
  | none => simp [openingKinds, signKinds, Phase.run_cons, Phase.next]
  | some sign =>
    cases sign <;> simp [openingKinds, signKinds, Phase.run_cons, Sign.kind, Sign.negative,
      Phase.next]

theorem run_openings (signs : List (Option Sign)) (started : Bool) :
    (Phase.operand started).run (signs.flatMap openingKinds) =
      some (.operand (started || signs.any fun sign? => sign?.any Sign.negative)) := by
  induction signs generalizing started with
  | nil => simp
  | cons sign? signs ih =>
    rw [List.flatMap_cons, Phase.run_append, run_openingKinds, Option.bind_some, ih, List.any_cons,
      Bool.or_assoc]

theorem run_closings (n : Nat) :
    Phase.operator.run (List.replicate n .closeParen) = some .operator := by
  induction n with
  | zero => rfl
  | succ n ih => rw [List.replicate_succ, Phase.run_cons]; exact ih

theorem run_block (b : Block) (started : Bool) :
    (Phase.operand started).run b.kinds = some .operator := by
  obtain ⟨openings, sign?, ⟨literal, hl⟩, closings⟩ := b
  simp only [Block.kinds, Phase.run_append, run_openings, Option.bind_some]
  cases sign? with
  | none => simp [signKinds, Phase.run_cons, Phase.next_literal hl, run_closings]
  | some sign =>
    simp [signKinds, Phase.run_cons, next_sign, Phase.next_signed_literal hl, run_closings]

theorem run_blocks (blocks : List (Block × Operator)) (started : Bool) :
    (Phase.operand started).run (blocks.flatMap fun p => p.1.kinds ++ [.operator p.2]) =
      some (.operand (started || !blocks.isEmpty)) := by
  induction blocks generalizing started with
  | nil => simp
  | cons p blocks ih =>
    simp [Phase.run_append, run_block, Phase.run_cons, Phase.next, ih]

theorem run_sentence (s : Sentence) (proper : s.Proper) :
    (Phase.operand false).run s.kinds = some .ended := by
  obtain ⟨blocks, ending⟩ := s
  simp only [Sentence.kinds, Phase.run_append, run_blocks, Option.bind_some]
  cases ending with
  | block b => simp [Ending.kinds, run_block, Phase.run_cons, Phase.next]
  | openings signs =>
    have started : (!blocks.isEmpty || signs.any fun sign? => sign?.any Sign.negative) = true := by
      rw [Bool.or_eq_true]
      rcases proper with hne | hm
      · exact .inl (by simpa using hne)
      · exact .inr (List.any_eq_true.mpr ⟨_, hm, rfl⟩)
    simp [Ending.kinds, run_openings, Phase.run_cons, started, Phase.next]

def Sentence.prepend (sign? : Option Sign) (s : Sentence) : Sentence :=
  match s.blocks, s.ending with
  | (b, operator) :: blocks, ending =>
    ⟨({ b with openings := sign? :: b.openings }, operator) :: blocks, ending⟩
  | [], .block b => ⟨[], .block { b with openings := sign? :: b.openings }⟩
  | [], .openings signs => ⟨[], .openings (sign? :: signs)⟩

theorem Sentence.kinds_prepend (sign? : Option Sign) (s : Sentence) :
    (s.prepend sign?).kinds = openingKinds sign? ++ s.kinds := by
  obtain ⟨blocks, ending⟩ := s
  cases blocks with
  | nil => cases ending <;> simp [prepend, kinds, Ending.kinds, Block.kinds]
  | cons p blocks => simp [prepend, kinds, Block.kinds]

theorem Sentence.Proper.prepend {s : Sentence} (h : s.Proper) (sign? : Option Sign) :
    (s.prepend sign?).Proper := by
  obtain ⟨blocks, ending⟩ := s
  cases blocks <;> cases ending <;> simp_all [Sentence.prepend, Proper]

theorem Sentence.proper_prepend_minus (s : Sentence) : (s.prepend (some .minus)).Proper := by
  obtain ⟨blocks, ending⟩ := s
  cases blocks <;> cases ending <;> simp [Sentence.prepend, Proper]

/-- What stands behind a block: the end, or an operator and what follows it. -/
def tailKinds : Option (Operator × Sentence) → List Kind
  | none => [.endOfInput]
  | some (operator, s) => .operator operator :: s.kinds

def Sentence.ofBlock (b : Block) : Option (Operator × Sentence) → Sentence
  | none => ⟨[], .block b⟩
  | some (operator, s) => ⟨(b, operator) :: s.blocks, s.ending⟩

theorem Sentence.kinds_ofBlock (b : Block) (tail : Option (Operator × Sentence)) :
    (ofBlock b tail).kinds = b.kinds ++ tailKinds tail := by
  cases tail <;> simp [ofBlock, kinds, Ending.kinds, tailKinds]

theorem Sentence.proper_ofBlock (b : Block) (tail : Option (Operator × Sentence)) :
    (ofBlock b tail).Proper := by
  cases tail with
  | none => trivial
  | some p => cases h : p.2.ending <;> simp [ofBlock, Proper, h]

def signOf (negative : Bool) : Sign :=
  if negative then .minus else .plus

/-- What may follow each phase. -/
def Follows : Phase → List Kind → Prop
  | .operand started, kinds => ∃ s : Sentence, (started = true ∨ s.Proper) ∧ s.kinds = kinds
  | .signed negative started, kinds => ∃ s : Sentence, (started = true ∨ s.Proper) ∧
      s.kinds = (signOf negative).kind :: kinds
  | .operator, kinds => ∃ closings tail,
      kinds = List.replicate closings .closeParen ++ tailKinds tail
  | .ended, kinds => kinds = []

theorem exists_sentence_of_literal {kind : Kind} {kinds : List Kind} (hl : kind.isLiteral)
    (h : Follows .operator kinds) (sign? : Option Sign) :
    ∃ s : Sentence, s.Proper ∧ s.kinds = signKinds sign? ++ kind :: kinds := by
  obtain ⟨closings, tail, rfl⟩ := h
  refine ⟨.ofBlock ⟨[], sign?, ⟨kind, hl⟩, closings⟩ tail, Sentence.proper_ofBlock _ _, ?_⟩
  simp [Sentence.kinds_ofBlock, Block.kinds]

theorem follows_operand_literal {kind : Kind} {kinds : List Kind} (hl : kind.isLiteral)
    (h : Follows .operator kinds) (started : Bool) :
    Follows (.operand started) (kind :: kinds) := by
  obtain ⟨s, hs, hk⟩ := exists_sentence_of_literal hl h none
  exact ⟨s, .inr hs, hk⟩

theorem follows_signed_literal {kind : Kind} {kinds : List Kind} (hl : kind.isLiteral)
    (h : Follows .operator kinds) (negative started : Bool) :
    Follows (.signed negative started) (kind :: kinds) := by
  obtain ⟨s, hs, hk⟩ := exists_sentence_of_literal hl h (some (signOf negative))
  exact ⟨s, .inr hs, hk⟩

/-- One step back: what follows a phase follows the kind that led to it. -/
theorem follows_cons {p q : Phase} {kind : Kind} {kinds : List Kind} (hn : p.next kind = some q)
    (h : Follows q kinds) : Follows p (kind :: kinds) := by
  unfold Phase.next at hn
  split at hn <;> simp only [Option.some.injEq, reduceCtorEq] at hn <;> subst hn
  case h_1 started =>
    obtain ⟨s, hs, rfl⟩ := h
    refine ⟨s.prepend none, hs.imp_right fun hs => hs.prepend none, ?_⟩
    rw [Sentence.kinds_prepend]
    rfl
  case h_2 | h_3 => exact h
  case h_4 | h_5 => exact follows_operand_literal rfl h _
  case h_6 =>
    rw [h]
    exact ⟨⟨[], .openings []⟩, .inl rfl, rfl⟩
  case h_7 negative started =>
    obtain ⟨s, hs, rfl⟩ := h
    refine ⟨s.prepend (some (signOf negative)), ?_, ?_⟩
    · cases negative with
      | false => exact (by simpa using hs : started = true ∨ s.Proper).imp_right fun hs =>
          hs.prepend _
      | true => exact .inr s.proper_prepend_minus
    · rw [Sentence.kinds_prepend]
      rfl
  case h_8 | h_9 => exact follows_signed_literal rfl h _ _
  case h_10 =>
    obtain ⟨closings, tail, rfl⟩ := h
    exact ⟨closings + 1, tail, rfl⟩
  case h_11 operator =>
    obtain ⟨s, -, rfl⟩ := h
    exact ⟨0, some (operator, s), rfl⟩
  case h_12 =>
    rw [h]
    exact ⟨0, none, rfl⟩

theorem follows_of_run {p : Phase} {kinds : List Kind} (h : p.run kinds = some .ended) :
    Follows p kinds := by
  induction kinds generalizing p with
  | nil => rw [Option.some.inj h]; rfl
  | cons kind kinds ih =>
    obtain ⟨q, hn, h⟩ := Phase.next_of_run_cons h
    exact follows_cons hn (ih h)

theorem accepted_iff {kinds : List Kind} :
    Accepted kinds ↔ (Phase.operand false).run kinds = some .ended := by
  constructor
  · rintro ⟨s, hs, rfl⟩
    exact run_sentence s hs
  · intro h
    obtain ⟨s, hs, hk⟩ := follows_of_run h
    exact ⟨s, hs.resolve_left (by decide), hk⟩

theorem exists_run_ended (p : Phase) : ∃ kinds, p.run kinds = some .ended := by
  cases p with
  | operand started => exact ⟨[.integer, .endOfInput], rfl⟩
  | signed negative started => exact ⟨[.integer, .endOfInput], rfl⟩
  | operator => exact ⟨[.endOfInput], rfl⟩
  | ended => exact ⟨[], rfl⟩

theorem viable_iff {kinds : List Kind} :
    Viable kinds ↔ ∃ p, (Phase.operand false).run kinds = some p := by
  simp only [Viable, accepted_iff, Phase.run_append]
  constructor
  · rintro ⟨rest, h⟩
    obtain ⟨p, hp, -⟩ := Option.bind_eq_some_iff.mp h
    exact ⟨p, hp⟩
  · rintro ⟨p, hp⟩
    obtain ⟨rest, hr⟩ := exists_run_ended p
    exact ⟨rest, by rw [hp]; exact hr⟩

def Phase.due : Phase → List Kind
  | operator => Kind.operandEnd
  | _ => Kind.operandStart

theorem expectedAfter_closeParen (kinds : List Kind) :
    expectedAfter (kinds ++ [.closeParen]) = expectedAfter kinds := by
  simp [expectedAfter]

theorem expectedAfter_other {kind : Kind} (h : kind ≠ .closeParen) (kinds : List Kind) :
    expectedAfter (kinds ++ [kind]) =
      if kind.isLiteral then Kind.operandEnd else Kind.operandStart := by
  simp [expectedAfter, h]

theorem due_next {p q : Phase} {kind : Kind} {kinds : List Kind} (hn : p.next kind = some q)
    (h : expectedAfter kinds = p.due) : expectedAfter (kinds ++ [kind]) = q.due := by
  by_cases hc : kind = .closeParen
  · subst hc
    rw [expectedAfter_closeParen, h]
    cases p <;> simp_all [Phase.next]
  · rw [expectedAfter_other hc]
    unfold Phase.next at hn
    split at hn <;> simp only [Option.some.injEq, reduceCtorEq] at hn <;> subst hn <;>
      first | rfl | contradiction

theorem due_run {p q : Phase} {kinds more : List Kind} (hr : p.run more = some q)
    (h : expectedAfter kinds = p.due) : expectedAfter (kinds ++ more) = q.due := by
  induction more generalizing p kinds with
  | nil => rw [List.append_nil, h, Option.some.inj hr]
  | cons kind more ih =>
    obtain ⟨p', hn, hr⟩ := Phase.next_of_run_cons hr
    rw [List.append_cons]
    exact ih hr (due_next hn h)

/-- The kinds that an operand can end with. -/
def endsOperand (kind : Kind) : Bool :=
  kind.isLiteral || kind = .closeParen

def Phase.after : Phase → Bool
  | operator => true
  | _ => false

theorem Phase.after_next {p q : Phase} {kind : Kind} (hn : p.next kind = some q) :
    q.after = endsOperand kind := by
  unfold Phase.next at hn
  split at hn <;> simp only [Option.some.injEq, reduceCtorEq] at hn <;> subst hn <;> rfl

theorem Phase.after_run {p q : Phase} {kinds : List Kind} {kind : Kind}
    (hr : p.run (kinds ++ [kind]) = some q) : q.after = endsOperand kind := by
  rw [run_append] at hr
  obtain ⟨p', -, hr⟩ := Option.bind_eq_some_iff.mp hr
  obtain ⟨q', hn, hr⟩ := next_of_run_cons hr
  obtain rfl := Option.some.inj hr
  exact after_next hn

end Reckoner.Language

namespace Reckoner
open Reckoner.Language

def Stack.phase (s : Stack) : Phase :=
  match s.awaiting with
  | .operand => .operand !s.frames.isEmpty
  | .signed negative => .signed negative !s.frames.isEmpty
  | .operator _ => .operator

theorem Tree.pushed_ne_nil (new : Candidate) (frames : List Frame) : pushed new frames ≠ [] := by
  simp [pushed]

namespace Stack

theorem due_phase (s : Stack) : s.phase.due = s.expected := by
  cases h : s.awaiting <;> simp [phase, expected, h, Phase.due]

theorem phase_step {s s' : Stack} {token : Token} (h : Step s token s') :
    s.phase.next token.kind = some s'.phase := by
  cases h with
  | opened ha hk =>
    rcases ha with ha | ha <;> simp [phase, ha, hk, Phase.next, openGroup]
  | negated ha hk =>
    simp [phase, ha, hk, Phase.next, openGroup, negate, operate, Tree.pushed_ne_nil]
  | signed negative ha hk => cases negative <;> simp [phase, ha, hk, Phase.next]
  | literal negative number ha hk hr =>
    rcases ha with ha | ⟨ha, -⟩
    · simp only [phase, ha]
      exact Phase.next_signed_literal hk _ _
    · simp only [phase, ha]
      exact Phase.next_literal hk _
  | closed operand ha hk => simp [phase, ha, hk, Phase.next, closeGroup]
  | operated operand operator ha hk =>
    simp [phase, ha, hk, Phase.next, operate, Tree.pushed_ne_nil]

theorem next_phase_eq_none {s : Stack} {token : Token} (readable : token.Readable)
    (before : token.kind ≠ .endOfInput) (h : s.take token = none) :
    s.phase.next token.kind = none := by
  have literals := fun hk => literal_ne_none (s := s) readable hk
  cases ha : s.awaiting with
  | operand =>
    cases hk : token.kind with
    | operator operator => cases operator <;> simp_all [take, phase, Phase.next]
    | _ => simp_all [take, phase, Phase.next, Token.Kind.isLiteral]
  | signed negative =>
    cases negative <;> cases hk : token.kind <;>
      simp_all [take, phase, Phase.next, Token.Kind.isLiteral]
  | operator operand => cases hk : token.kind <;> simp_all [take, phase, Phase.next]

theorem phase_takeAll {s s' : Stack} {tokens : List Token} (h : s.takeAll tokens = some s') :
    s.phase.run (tokens.map Token.kind) = some s'.phase := by
  induction tokens generalizing s with
  | nil => exact congrArg (Option.map phase) h
  | cons token rest ih =>
    obtain ⟨s₁, step, h⟩ := step_of_takeAll_cons h
    rw [List.map_cons, Phase.run_cons, phase_step step]
    exact ih h

theorem next_phase_endOfInput (s : Stack) :
    s.phase.next .endOfInput = s.finish.map fun _ => .ended := by
  cases ha : s.awaiting with
  | operand => cases hf : s.frames <;> simp [phase, finish, ha, hf, Phase.next]
  | signed negative => simp [phase, finish, ha, Phase.next]
  | operator operand => simp [phase, finish, ha, Phase.next]

/-- A stack that has taken tokens stands behind a viable prefix and tells what is due there. -/
theorem viable_takeAll {s : Stack} {tokens : List Token} (h : start.takeAll tokens = some s) :
    Viable (tokens.map Token.kind) ∧ expectedAfter (tokens.map Token.kind) = s.expected := by
  have hr : (Phase.operand false).run (tokens.map Token.kind) = some s.phase := phase_takeAll h
  have hd : expectedAfter ([] ++ tokens.map Token.kind) = s.phase.due := due_run hr rfl
  exact ⟨viable_iff.mpr ⟨_, hr⟩, hd.trans s.due_phase⟩

theorem not_viable_of_next {s : Stack} {tokens : List Token} {token : Token}
    (h : start.takeAll tokens = some s) (hn : s.phase.next token.kind = none) :
    ¬Viable ((tokens ++ [token]).map Token.kind) := by
  have hr : (Phase.operand false).run (tokens.map Token.kind) = some s.phase := phase_takeAll h
  rw [viable_iff, List.map_append, Phase.run_append, hr]
  simp [Phase.run_cons, hn]

theorem finish_isSome_iff {s : Stack} {tokens : List Token} {final : Token}
    (hf : final.kind = .endOfInput) (h : start.takeAll tokens = some s) :
    s.finish.isSome ↔ Accepted ((tokens ++ [final]).map Token.kind) := by
  have hr : (Phase.operand false).run (tokens.map Token.kind) = some s.phase := phase_takeAll h
  rw [accepted_iff, List.map_append, Phase.run_append, hr]
  simp only [List.map_cons, List.map_nil, hf, Option.bind_some, Phase.run_cons, Phase.run_nil,
    next_phase_endOfInput]
  cases s.finish <;> simp

end Stack

section Parse
variable (source : String) (symbols : Numeral.Symbols)

theorem takeAll_of_viable (h : Viable ((Scanner.ofSource source symbols).scan.1.map Token.kind)) :
    ∃ s, Stack.start.takeAll (Scanner.ofSource source symbols).scan.1 = some s := by
  cases ht : Stack.start.takeAll (Scanner.ofSource source symbols).scan.1 with
  | some s => exact ⟨s, rfl⟩
  | none =>
    obtain ⟨before, token, after, s, hb, hs, hbad, -⟩ := parse_of_takeAll_eq_none ht
    have mem : token ∈ (Scanner.ofSource source symbols).scan.1 := by simp [hb]
    have hn := Stack.next_phase_eq_none (Scanner.readable_of_mem_scan _ token mem)
      (Scanner.kind_ne_endOfInput_of_mem_scan _ token mem) hbad
    refine absurd ?_ (Stack.not_viable_of_next hs hn)
    obtain ⟨rest, hrest⟩ := h
    refine ⟨after.map Token.kind ++ rest, ?_⟩
    simpa [hb] using hrest

theorem exists_tree_iff_accepted :
    (∃ tree, (parse source symbols).tree = .ok tree) ↔
      ∃ final, (Scanner.ofSource source symbols).scan.2.1 = .ok final ∧
        Accepted (((Scanner.ofSource source symbols).scan.1 ++ [final]).map Token.kind) := by
  constructor
  · rintro ⟨tree, h⟩
    obtain ⟨final, s, hl, ht, hf⟩ := parse_eq_ok_iff.mp h
    refine ⟨final, hl, (Stack.finish_isSome_iff (Scanner.kind_last_scan _ hl) ht).mp ?_⟩
    rw [hf]
    rfl
  · rintro ⟨final, hl, ha⟩
    have hv : Viable ((Scanner.ofSource source symbols).scan.1.map Token.kind) :=
      ⟨[final.kind], by simpa using ha⟩
    obtain ⟨s, ht⟩ := takeAll_of_viable source symbols hv
    have hf := (Stack.finish_isSome_iff (Scanner.kind_last_scan _ hl) ht).mpr ha
    obtain ⟨tree, hf⟩ := Option.isSome_iff_exists.mp hf
    exact ⟨tree, parse_eq_ok_iff.mpr ⟨final, s, hl, ht, hf⟩⟩

theorem stuck_of_error {error : Error} (h : (parse source symbols).tree = .error error) :
    (∃ s, Stack.start.takeAll (Scanner.ofSource source symbols).scan.1 = some s ∧
      (Scanner.ofSource source symbols).scan.2.1 = .error error) ∨
    ∃ before token after s,
      (Scanner.ofSource source symbols).scan.1 ++
        (Scanner.ofSource source symbols).scan.2.1.toOption.toList = before ++ token :: after ∧
      Stack.start.takeAll before = some s ∧ s.phase.next token.kind = none ∧
      error = .unexpected source token s.expected := by
  rcases parse_eq_error h with ⟨before, token, after, s, hb, hs, hbad, rfl⟩ | ⟨s, ht, hl⟩
  · have mem : token ∈ (Scanner.ofSource source symbols).scan.1 := by simp [hb]
    have hn := Stack.next_phase_eq_none (Scanner.readable_of_mem_scan _ token mem)
      (Scanner.kind_ne_endOfInput_of_mem_scan _ token mem) hbad
    exact .inr ⟨before, token, _, s, by rw [hb]; simp; rfl, hs, hn, rfl⟩
  · rcases hl with hl | ⟨final, hl, hf, rfl⟩
    · exact .inl ⟨s, ht, hl⟩
    · have hn : s.phase.next final.kind = none := by
        rw [Scanner.kind_last_scan _ hl, Stack.next_phase_endOfInput, hf]
        rfl
      exact .inr ⟨_, final, [], s, by rw [hl]; rfl, ht, hn, rfl⟩

theorem violation_of_error {error : Error} (h : (parse source symbols).tree = .error error) :
    Violation source (Scanner.ofSource source symbols).scan.1
      (Scanner.ofSource source symbols).scan.2.1 error := by
  rcases stuck_of_error source symbols h with ⟨s, hs, hl⟩ | ⟨before, token, after, s, hb, hs, hn, rfl⟩
  · exact .unscanned error hl (Stack.viable_takeAll hs).1
  · obtain ⟨hv, he⟩ := Stack.viable_takeAll hs
    rw [← he]
    exact .unexpected before token after hb hv (Stack.not_viable_of_next hs hn)

/-- A source is parsed exactly if it scans to a sentence; the error of any other is at the first
token that no sentence can have there. -/
theorem parse_iff_sentence :
    ((∃ tree, (parse source symbols).tree = .ok tree) ↔
      ∃ final, (Scanner.ofSource source symbols).scan.2.1 = .ok final ∧
        Accepted (((Scanner.ofSource source symbols).scan.1 ++ [final]).map Token.kind)) ∧
    ∀ error, (parse source symbols).tree = .error error →
      Violation source (Scanner.ofSource source symbols).scan.1
        (Scanner.ofSource source symbols).scan.2.1 error :=
  ⟨exists_tree_iff_accepted source symbols, fun _ h => violation_of_error source symbols h⟩

end Parse

/-- A negated group may be left open, a group behind a plus sign may not: nothing has been made. -/
theorem sentence_of_open_negated_group :
    let scanned := (Scanner.ofSource "+(" .standard).scan
    (∃ tree, (parse "-(" .standard).tree = .ok tree) ∧
      ¬Accepted [.operator .add, .openParen, .endOfInput] ∧
      ∃ error, (parse "+(" .standard).tree = .error error ∧
        error = .unexpected "+(" ⟨.endOfInput, "", 2⟩ Token.Kind.operandStart ∧
        Violation "+(" scanned.1 scanned.2.1 error := by
  intro scanned
  obtain ⟨negated, -⟩ := parse_iff_sentence "-(" .standard
  obtain ⟨plain, violation⟩ := parse_iff_sentence "+(" .standard
  have failed : (parse "+(" .standard).tree =
      .error (.unexpected "+(" ⟨.endOfInput, "", 2⟩ Token.Kind.operandStart) :=
    eq_error_of_of? (by decide +kernel)
  let final : Token := ⟨.endOfInput, "", 2⟩
  refine ⟨negated.mpr ⟨final, eq_ok_of_toOption (by decide +kernel), ?_⟩, fun accepted => ?_, _,
    failed, rfl, violation _ failed⟩
  · let sentence : Sentence := ⟨[], .openings [some .minus]⟩
    have proper : sentence.Proper := .inr (by simp)
    exact ⟨sentence, proper, by decide +kernel⟩
  · have kinds : (scanned.1 ++ [final]).map Token.kind =
        [.operator .add, .openParen, .endOfInput] := by decide +kernel
    obtain ⟨tree, parsed⟩ :=
      plain.mpr ⟨final, eq_ok_of_toOption (by decide +kernel), kinds ▸ accepted⟩
    rw [failed] at parsed
    contradiction

end Reckoner

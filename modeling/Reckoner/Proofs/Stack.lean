import Reckoner.Builder
import Reckoner.Proofs.Scan
import Reckoner.Proofs.Spine

/-! The builder as a stack machine on the frames of the right spine. Main statements: the builder
takes the tokens that the machine takes, and a parse is a run of the machine over all tokens. -/
namespace Reckoner

namespace Builder

theorem take_operator {b : Builder} {token : Token} {operator : Operator} {operand : Tree}
    (ha : b.awaiting = .operator operand) (hk : token.kind = .operator operator) :
    b.take token = b.operate operator operator.tier operand := by
  simp [take, ha, takeOperator, hk]

theorem take_negated {b : Builder} {token : Token} (ha : b.awaiting = .signed true)
    (hk : token.kind = .openParen) : b.take token = b.negateGroup.map openGroup := by
  simp [take, ha, takeSigned, hk]

end Builder

structure Stack where
  frames : List Frame
  awaiting : Awaiting
  depth : UInt32
  made : Nat

namespace Stack

def start : Stack := ⟨[], .operand, 0, 0⟩

def openGroup (s : Stack) : Stack := { s with depth := s.depth + 1, awaiting := .operand }

def closeGroup (s : Stack) : Stack :=
  { s with depth := if s.depth = 0 then 0 else s.depth - 1 }

def operate (s : Stack) (operator : Operator) (tier : Tier) (operand : Tree) : Stack :=
  { s with
    frames := Tree.pushed ⟨s.made, operator, .of s.depth tier, operand⟩ s.frames
    awaiting := .operand
    made := s.made + 1 }

def literal (s : Stack) (negative : Bool) (token : Token) : Option Stack :=
  (Numeral.read? negative token).map fun number =>
    { s with awaiting := .operator (.leaf s.made number), made := s.made + 1 }

def negate (s : Stack) : Stack :=
  { s with made := s.made + 1 }.operate .multiply .exponential (.leaf s.made (.integer (-1)))

def take (s : Stack) (token : Token) : Option Stack :=
  match s.awaiting, token.kind with
  | .operand, .openParen => some s.openGroup
  | .operand, .operator .subtract => some { s with awaiting := .signed true }
  | .operand, .operator .add => some { s with awaiting := .signed false }
  | .operand, .integer => s.literal false token
  | .operand, .decimal => s.literal false token
  | .signed true, .openParen => some s.negate.openGroup
  | .signed false, .openParen => some s.openGroup
  | .signed negative, .integer => s.literal negative token
  | .signed negative, .decimal => s.literal negative token
  | .operator _, .closeParen => some s.closeGroup
  | .operator operand, .operator operator => some (s.operate operator operator.tier operand)
  | _, _ => none

def takeAll (s : Stack) (tokens : List Token) : Option Stack :=
  tokens.foldlM take s

/-- The whole tree, with a zero where the last operand is missing. -/
def finish (s : Stack) : Option Tree :=
  match s.awaiting with
  | .operand => if s.frames.isEmpty then none
      else some (assemble s.frames (.leaf s.made (.integer 0)))
  | .signed _ => none
  | .operator operand => some (assemble s.frames operand)

theorem takeAll_cons (s : Stack) (token : Token) (rest : List Token) :
    s.takeAll (token :: rest) = (s.take token).bind fun s => s.takeAll rest := by
  simp [takeAll]

theorem takeAll_append (s : Stack) (tokens more : List Token) :
    s.takeAll (tokens ++ more) = (s.takeAll tokens).bind fun s => s.takeAll more := by
  simp [takeAll]

/-- All that a token can do. -/
inductive Step (s : Stack) (token : Token) : Stack → Prop
  | opened (ha : s.awaiting = .operand ∨ s.awaiting = .signed false)
      (hk : token.kind = .openParen) : Step s token s.openGroup
  | negated (ha : s.awaiting = .signed true) (hk : token.kind = .openParen) :
      Step s token s.negate.openGroup
  | signed (negative : Bool) (ha : s.awaiting = .operand)
      (hk : token.kind = .operator (if negative then .subtract else .add)) :
      Step s token { s with awaiting := .signed negative }
  | literal (negative : Bool) (number : Number)
      (ha : s.awaiting = .signed negative ∨ s.awaiting = .operand ∧ negative = false)
      (hk : token.kind.isLiteral) (hr : Numeral.read? negative token = some number) :
      Step s token { s with awaiting := .operator (.leaf s.made number), made := s.made + 1 }
  | closed (operand : Tree) (ha : s.awaiting = .operator operand)
      (hk : token.kind = .closeParen) : Step s token s.closeGroup
  | operated (operand : Tree) (operator : Operator) (ha : s.awaiting = .operator operand)
      (hk : token.kind = .operator operator) :
      Step s token (s.operate operator operator.tier operand)

theorem step_literal {s s' : Stack} {token : Token} {negative : Bool}
    (ha : s.awaiting = .signed negative ∨ s.awaiting = .operand ∧ negative = false)
    (hk : token.kind.isLiteral) (h : s.literal negative token = some s') : Step s token s' := by
  obtain ⟨number, hr, rfl⟩ := Option.map_eq_some_iff.mp h
  exact .literal negative number ha hk hr

theorem step_of_take {s s' : Stack} {token : Token} (h : s.take token = some s') :
    Step s token s' := by
  unfold take at h
  split at h
  case h_1 ha hk => exact Option.some.inj h ▸ .opened (.inl ha) hk
  case h_2 ha hk => exact Option.some.inj h ▸ .signed true ha hk
  case h_3 ha hk => exact Option.some.inj h ▸ .signed false ha hk
  case h_4 ha hk => exact step_literal (.inr ⟨ha, rfl⟩) (by simp [hk, Token.Kind.isLiteral]) h
  case h_5 ha hk => exact step_literal (.inr ⟨ha, rfl⟩) (by simp [hk, Token.Kind.isLiteral]) h
  case h_6 ha hk => exact Option.some.inj h ▸ .negated ha hk
  case h_7 ha hk => exact Option.some.inj h ▸ .opened (.inr ha) hk
  case h_8 ha hk => exact step_literal (.inl ha) (by simp [hk, Token.Kind.isLiteral]) h
  case h_9 ha hk => exact step_literal (.inl ha) (by simp [hk, Token.Kind.isLiteral]) h
  case h_10 ha hk => exact Option.some.inj h ▸ .closed _ ha hk
  case h_11 ha hk => exact Option.some.inj h ▸ .operated _ _ ha hk
  case h_12 => contradiction

theorem take_of_step {s s' : Stack} {token : Token} (h : Step s token s') :
    s.take token = some s' := by
  cases h with
  | opened ha hk => rcases ha with ha | ha <;> simp [take, ha, hk]
  | negated ha hk => simp [take, ha, hk]
  | signed negative ha hk => cases negative <;> simp_all [take]
  | literal negative number ha hk hr =>
    rcases ha with ha | ⟨ha, rfl⟩ <;> cases hkind : token.kind <;>
      simp_all [take, literal, Token.Kind.isLiteral]
  | closed operand ha hk => simp [take, ha, hk]
  | operated operand operator ha hk => simp [take, ha, hk]

theorem step_of_takeAll_cons {s s' : Stack} {token : Token} {rest : List Token}
    (h : s.takeAll (token :: rest) = some s') :
    ∃ s₁, Step s token s₁ ∧ s₁.takeAll rest = some s' := by
  rw [takeAll_cons] at h
  obtain ⟨s₁, h₁, h⟩ := Option.bind_eq_some_iff.mp h
  exact ⟨s₁, step_of_take h₁, h⟩

theorem step_of_takeAll_concat {s s' : Stack} {tokens : List Token} {token : Token}
    (h : s.takeAll (tokens ++ [token]) = some s') :
    ∃ s₁, s.takeAll tokens = some s₁ ∧ Step s₁ token s' := by
  rw [takeAll_append] at h
  obtain ⟨s₁, before, h⟩ := Option.bind_eq_some_iff.mp h
  obtain ⟨s₂, step, h⟩ := step_of_takeAll_cons h
  exact ⟨s₁, before, Option.some.inj h ▸ step⟩

theorem stacked_start : Stacked start.frames := List.Pairwise.nil

theorem stacked_step {s s' : Stack} {token : Token} (stacked : Stacked s.frames)
    (h : Step s token s') : Stacked s'.frames := by
  cases h with
  | opened | signed | literal | closed => exact stacked
  | negated | operated => exact Tree.stacked_pushed _ stacked

theorem stacked_takeAll {s s' : Stack} {tokens : List Token} (stacked : Stacked s.frames)
    (h : s.takeAll tokens = some s') : Stacked s'.frames := by
  induction tokens generalizing s with
  | nil => exact Option.some.inj h ▸ stacked
  | cons token rest ih =>
    obtain ⟨s₁, step, h⟩ := step_of_takeAll_cons h
    exact ih (stacked_step stacked step) h

/-- The builder whose tree has these frames as its spine. -/
def builder (s : Stack) (source : String) (placements : List Placement) : Builder :=
  ⟨source, assemble s.frames .hole, s.awaiting, s.depth, s.made, placements⟩

/-- An operation came, and where it went was noted unless it is the first one. -/
structure Grows (s s' : Stack) (placements more : List Placement) (new : Tree.Candidate) :
    Prop where
  operand : s.awaiting = .operator new.operand ∨ new.operand = .leaf s.made (.integer (-1))
  frames : s'.frames = Tree.pushed new s.frames
  noted : more.map Placement.id =
    if s.frames.isEmpty then placements.map Placement.id else new.id :: placements.map Placement.id

theorem operate_builder (s : Stack) (stacked : Stacked s.frames) (source : String)
    (placements : List Placement) (operator : Operator) (tier : Tier) (operand : Tree) :
    ∃ more, (s.builder source placements).operate operator tier operand =
        .ok ((s.operate operator tier operand).builder source more) ∧
      more.map Placement.id = if s.frames.isEmpty then placements.map Placement.id
        else s.made :: placements.map Placement.id := by
  simp only [Builder.operate, builder, isHole_assemble]
  by_cases hne : s.frames = []
  · exact ⟨placements, by simp [hne, operate, Tree.pushed, kept, closed, settle]; rfl, by simp [hne]⟩
  · obtain ⟨site, hi⟩ := Tree.insert?_assemble ⟨s.made, operator, .of s.depth tier, operand⟩ hne
      stacked
    exact ⟨_, by simp [hne, hi, operate]; rfl, by simp [hne]⟩

theorem literal_builder {s s' : Stack} {negative : Bool} {token : Token} (source : String)
    (placements : List Placement) (h : s.literal negative token = some s') :
    (s.builder source placements).literal negative token = .ok (s'.builder source placements) := by
  obtain ⟨number, hr, rfl⟩ := Option.map_eq_some_iff.mp h
  simp [Builder.literal, hr, Builder.makeLeaf, builder]

theorem take_builder {s s' : Stack} {token : Token} (stacked : Stacked s.frames)
    (source : String) (placements : List Placement) (h : Step s token s') :
    ∃ more, (s.builder source placements).take token = .ok (s'.builder source more) ∧
      (s'.frames = s.frames ∧ more = placements ∨ ∃ new, Grows s s' placements more new) := by
  cases h with
  | opened ha hk =>
    refine ⟨placements, ?_, .inl ⟨rfl, rfl⟩⟩
    rcases ha with ha | ha <;>
      simp [Builder.take, builder, ha, Builder.takeOperand, Builder.takeSigned, hk, openGroup,
        Builder.openGroup]
  | negated ha hk =>
    obtain ⟨more, ho, noted⟩ := operate_builder { s with made := s.made + 1 } stacked source
      placements .multiply .exponential (.leaf s.made (.integer (-1)))
    have hn : (s.builder source placements).negateGroup = .ok (s.negate.builder source more) := ho
    exact ⟨more, by rw [Builder.take_negated ha hk, hn]; rfl, .inr ⟨_, .inr rfl, rfl, noted⟩⟩
  | signed negative ha hk =>
    refine ⟨placements, ?_, .inl ⟨rfl, rfl⟩⟩
    cases negative <;> simp_all [Builder.take, builder, Builder.takeOperand]
  | literal negative number ha hk hr =>
    have ht : (s.builder source placements).take token =
        (s.builder source placements).literal negative token := by
      rcases ha with ha | ⟨ha, rfl⟩ <;> cases hkind : token.kind <;>
        simp_all [Builder.take, builder, Builder.takeOperand, Builder.takeSigned,
          Token.Kind.isLiteral]
    refine ⟨placements, ht.trans (literal_builder source placements ?_), .inl ⟨rfl, rfl⟩⟩
    simp [literal, hr]
  | closed operand ha hk =>
    refine ⟨placements, ?_, .inl ⟨rfl, rfl⟩⟩
    simp [Builder.take, builder, ha, Builder.takeOperator, hk, closeGroup, Builder.closeGroup]
  | operated operand operator ha hk =>
    obtain ⟨more, ho, noted⟩ :=
      operate_builder s stacked source placements operator operator.tier operand
    exact ⟨more, (Builder.take_operator ha hk).trans ho, .inr ⟨_, .inl ha, rfl, noted⟩⟩

def expected (s : Stack) : List Token.Kind :=
  match s.awaiting with
  | .operand | .signed _ => Token.Kind.operandStart
  | .operator _ => Token.Kind.operandEnd

theorem literal_ne_none {s : Stack} {token : Token} (readable : token.Readable)
    (hk : token.kind.isLiteral) (negative : Bool) : s.literal negative token ≠ none := by
  have hr := readable hk negative
  rw [literal, Ne, Option.map_eq_none_iff]
  exact Option.isSome_iff_ne_none.mp hr

theorem take_builder_error {s : Stack} {token : Token} (readable : token.Readable)
    (source : String) (placements : List Placement) (h : s.take token = none) :
    (s.builder source placements).take token =
      .error (.unexpected source token s.expected) := by
  have literals := fun hk => literal_ne_none (s := s) readable hk
  cases ha : s.awaiting with
  | operand =>
    cases hk : token.kind with
    | operator operator =>
      cases operator <;>
        simp_all [take, expected, Builder.take, builder, Builder.takeOperand]
    | _ =>
      simp_all [take, expected, Builder.take, builder, Builder.takeOperand, Token.Kind.isLiteral]
  | signed negative =>
    cases negative <;> cases hk : token.kind <;>
      simp_all [take, expected, Builder.take, builder, Builder.takeSigned, Token.Kind.isLiteral]
  | operator operand =>
    cases hk : token.kind <;>
      simp_all [take, expected, Builder.take, builder, Builder.takeOperator]

theorem takeAll_builder {s s' : Stack} {tokens : List Token} (stacked : Stacked s.frames)
    (source : String) (placements : List Placement) (h : s.takeAll tokens = some s') :
    ∃ more, (s.builder source placements).takeAll tokens = (.ok (), s'.builder source more) := by
  induction tokens generalizing s placements with
  | nil => exact ⟨placements, Option.some.inj h ▸ rfl⟩
  | cons token rest ih =>
    obtain ⟨s₁, step, h⟩ := step_of_takeAll_cons h
    obtain ⟨more, ht, -⟩ := take_builder stacked source placements step
    obtain ⟨last, hl⟩ := ih (stacked_step stacked step) more h
    exact ⟨last, by rw [Builder.takeAll, ht]; exact hl⟩

theorem takeAll_builder_error {s : Stack} {tokens : List Token} (stacked : Stacked s.frames)
    (readable : ∀ token ∈ tokens, token.Readable) (source : String) (placements : List Placement)
    (h : s.takeAll tokens = none) :
    ∃ before token after s', tokens = before ++ token :: after ∧ s.takeAll before = some s' ∧
      s'.take token = none ∧ ((s.builder source placements).takeAll tokens).1 =
        .error (.unexpected source token s'.expected) := by
  induction tokens generalizing s placements with
  | nil => contradiction
  | cons token rest ih =>
    cases ht : s.take token with
    | none =>
      refine ⟨[], token, rest, s, rfl, rfl, ht, ?_⟩
      rw [Builder.takeAll, take_builder_error (readable token (by simp)) source placements ht]
    | some s₁ =>
      rw [takeAll_cons, ht] at h
      have step := step_of_take ht
      obtain ⟨more, hb, -⟩ := take_builder stacked source placements step
      obtain ⟨before, bad, after, s', rfl, hs, hbad, he⟩ :=
        ih (stacked_step stacked step) (fun t htm => readable t (by simp [htm])) more h
      refine ⟨token :: before, bad, after, s', rfl, ?_, hbad, ?_⟩
      · rw [takeAll_cons, ht]
        exact hs
      · rw [Builder.takeAll, hb]
        exact he

theorem finish_builder {s : Stack} {tree : Tree} (source : String) (placements : List Placement)
    (final : Token) (h : s.finish = some tree) :
    (s.builder source placements).finish final = .ok tree := by
  cases ha : s.awaiting with
  | operand =>
    simp only [finish, ha] at h
    split at h
    · contradiction
    next hne =>
      have hne : s.frames ≠ [] := by simpa using hne
      obtain rfl := Option.some.inj h
      simp [Builder.finish, builder, ha, hne, Tree.fillSlot?_assemble, Builder.makeLeaf]
  | signed negative => simp [finish, ha] at h
  | operator operand =>
    simp only [finish, ha] at h
    obtain rfl := Option.some.inj h
    by_cases hne : s.frames = []
    · simp [Builder.finish, builder, ha, hne, Tree.isHole]
    · simp [Builder.finish, builder, ha, hne, Tree.fillSlot?_assemble]

theorem finish_builder_error {s : Stack} (source : String) (placements : List Placement)
    (final : Token) (h : s.finish = none) :
    (s.builder source placements).finish final =
      .error (.unexpected source final s.expected) := by
  cases ha : s.awaiting <;> simp_all [finish, expected, Builder.finish, builder, Tree.isHole]

end Stack

section Parse
variable {source : String} {symbols : Numeral.Symbols}

theorem parse_of_takeAll {s : Stack}
    (h : Stack.start.takeAll (Scanner.ofSource source symbols).scan.1 = some s) :
    ∃ placements, (parse source symbols).tree =
      (Scanner.ofSource source symbols).scan.2.1.bind (s.builder source placements).finish := by
  obtain ⟨placements, hb⟩ := Stack.takeAll_builder Stack.stacked_start source [] h
  refine ⟨placements, ?_⟩
  change (Builder.start source).takeAll (Scanner.ofSource source symbols).scan.1 = _ at hb
  simp only [parse, Scanner.parse]
  rw [show (Scanner.ofSource source symbols).source = source from rfl, hb]

theorem parse_of_takeAll_eq_none
    (h : Stack.start.takeAll (Scanner.ofSource source symbols).scan.1 = none) :
    ∃ before token after s,
      (Scanner.ofSource source symbols).scan.1 = before ++ token :: after ∧
      Stack.start.takeAll before = some s ∧ s.take token = none ∧
      (parse source symbols).tree = .error (.unexpected source token s.expected) := by
  obtain ⟨before, token, after, s, ht, hs, hbad, he⟩ := Stack.takeAll_builder_error Stack.stacked_start
    (Scanner.ofSource source symbols).readable_of_mem_scan source [] h
  refine ⟨before, token, after, s, ht, hs, hbad, ?_⟩
  change ((Builder.start source).takeAll (Scanner.ofSource source symbols).scan.1).1 = _ at he
  simp only [parse, Scanner.parse]
  rw [show (Scanner.ofSource source symbols).source = source from rfl]
  split
  next error b hb =>
    rw [hb] at he
    exact congrArg Except.error (Except.error.inj he)
  next b hb => simp [hb] at he

theorem parse_eq_ok_iff {tree : Tree} :
    (parse source symbols).tree = .ok tree ↔
      ∃ final s, (Scanner.ofSource source symbols).scan.2.1 = .ok final ∧
        Stack.start.takeAll (Scanner.ofSource source symbols).scan.1 = some s ∧
        s.finish = some tree := by
  constructor
  · intro h
    cases ht : Stack.start.takeAll (Scanner.ofSource source symbols).scan.1 with
    | none =>
      obtain ⟨_, _, _, _, -, -, -, he⟩ := parse_of_takeAll_eq_none ht
      rw [he] at h
      contradiction
    | some s =>
      obtain ⟨placements, hp⟩ := parse_of_takeAll ht
      rw [hp] at h
      cases hl : (Scanner.ofSource source symbols).scan.2.1 with
      | error error =>
        rw [hl] at h
        contradiction
      | ok final =>
        refine ⟨final, s, rfl, rfl, ?_⟩
        rw [hl] at h
        cases hf : s.finish with
        | none => exact absurd h (by simp [Except.bind, Stack.finish_builder_error, hf])
        | some found =>
          have hb := Stack.finish_builder source placements final hf
          rw [← Except.ok.inj (hb.symm.trans h)]
  · rintro ⟨final, s, hl, ht, hf⟩
    obtain ⟨placements, hp⟩ := parse_of_takeAll ht
    rw [hp, hl]
    exact Stack.finish_builder source placements final hf

theorem parse_eq_error {error : Error} (h : (parse source symbols).tree = .error error) :
    (∃ before token after s,
      (Scanner.ofSource source symbols).scan.1 = before ++ token :: after ∧
      Stack.start.takeAll before = some s ∧ s.take token = none ∧
      error = .unexpected source token s.expected) ∨
    ∃ s, Stack.start.takeAll (Scanner.ofSource source symbols).scan.1 = some s ∧
      ((Scanner.ofSource source symbols).scan.2.1 = .error error ∨
        ∃ final, (Scanner.ofSource source symbols).scan.2.1 = .ok final ∧ s.finish = none ∧
          error = .unexpected source final s.expected) := by
  cases ht : Stack.start.takeAll (Scanner.ofSource source symbols).scan.1 with
  | none =>
    obtain ⟨before, token, after, s, hb, hs, hbad, he⟩ := parse_of_takeAll_eq_none ht
    rw [he] at h
    exact .inl ⟨before, token, after, s, hb, hs, hbad, (Except.error.inj h).symm⟩
  | some s =>
    obtain ⟨placements, hp⟩ := parse_of_takeAll ht
    rw [hp] at h
    refine .inr ⟨s, rfl, ?_⟩
    cases hl : (Scanner.ofSource source symbols).scan.2.1 with
    | error stopped =>
      rw [hl] at h
      exact .inl (congrArg Except.error (Except.error.inj h))
    | ok final =>
      rw [hl] at h
      refine .inr ⟨final, rfl, ?_⟩
      cases hf : s.finish with
      | none =>
        have he := Stack.finish_builder_error source placements final hf
        exact ⟨rfl, (Except.error.inj (he.symm.trans h)).symm⟩
      | some found =>
        have hb := Stack.finish_builder source placements final hf
        exact absurd (hb.symm.trans h) (by simp)

end Parse
end Reckoner

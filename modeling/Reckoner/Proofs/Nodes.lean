import Reckoner.Proofs.Language
import Reckoner.Proofs.Levels
import Reckoner.Proofs.SourceOrder

/-! The nodes of a tree as its tokens tell them. Main statement: while operands are awaited and when
the tree is done, it houses exactly the nodes of the tokens that have been taken. -/
namespace Reckoner

/-- What a node is made for. -/
inductive Entry where
  /-- A literal, with the level of the operator that comes next. -/
  | literal (number : Number) (behind : Option Nat)
  /-- The factor of a negated group and its multiplication. -/
  | minusOne | product
  | operation (operator : Operator)
  /-- What stands for a missing last operand. -/
  | zero
  deriving DecidableEq, Repr

namespace Entry

def content : Entry → Content
  | literal number _ => .number number
  | minusOne => .number (.integer (-1))
  | product => .operation .multiply
  | operation operator => .operation operator
  | zero => .number (.integer 0)

def isLiteral : Entry → Bool
  | literal .. => true
  | _ => false

def isOperation : Entry → Bool
  | operation _ => true
  | _ => false

end Entry

namespace Language
open Token (Kind)

/-- The level of the operator behind the closing parentheses that come first. -/
def behind (groups : Nat) : List Token → Option Nat
  | [] => none
  | token :: rest =>
    match token.kind with
    | .closeParen => behind (groups - 1) rest
    | .operator operator => some (levelAt groups operator)
    | _ => none

theorem behind_closeParen {token : Token} (hk : token.kind = .closeParen) (groups : Nat)
    (rest : List Token) : behind groups (token :: rest) = behind (groups - 1) rest := by
  rw [behind, hk]

theorem behind_operator {token : Token} {operator : Operator} (hk : token.kind = .operator operator)
    (groups : Nat) (rest : List Token) :
    behind groups (token :: rest) = some (levelAt groups operator) := by
  rw [behind, hk]

namespace Phase

def negative : Phase → Bool
  | signed negative _ => negative
  | _ => false

/-- The nodes that a token adds. -/
def adds (p : Phase) (groups : Nat) (token : Token) (rest : List Token) : List Entry :=
  match p, token.kind with
  | operator, .operator made => [.operation made]
  | signed true _, .openParen => [.minusOne, .product]
  | _, .integer | _, .decimal =>
    (Numeral.read? p.negative token).toList.map fun number => .literal number (behind groups rest)
  | _, _ => []

def lacks : Phase → List Entry
  | operand _ => [.zero]
  | _ => []

end Phase

/-- The nodes of all tokens, in order. -/
def entries (p : Phase) (groups : Nat) : List Token → List Entry
  | [] => []
  | token :: rest =>
    p.adds groups token rest ++
      match p.next token.kind with
      | some q => entries q (groupsAfter groups token.kind) rest
      | none => []

/-- The nodes of a whole source; a zero is supplied if an operand is awaited at its end. -/
def arena (tokens : List Token) : List Entry :=
  entries (.operand false) 0 tokens ++
    (((Phase.operand false).run (tokens.map Token.kind)).map Phase.lacks).getD []

/-- How many operators stand behind an operand; `after` tells whether one comes before. -/
def binaryOperators (after : Bool) : List Kind → Nat
  | [] => 0
  | kind :: rest =>
    (if after && kind.operator?.isSome then 1 else 0) + binaryOperators (endsOperand kind) rest

/-- How many groups stand directly behind a minus sign that is no operator. -/
def negatedGroups (after : Bool) : List Kind → Nat
  | [] => 0
  | kind :: rest =>
    (if !after && kind = .operator .subtract && rest.head? = some .openParen then 1 else 0) +
      negatedGroups (endsOperand kind) rest

/-- There is one node for each thing that makes one. -/
structure Accounts (kinds : List Kind) (nodes : List Entry) : Prop where
  literals : nodes.countP Entry.isLiteral = kinds.countP Kind.isLiteral
  minusOnes : nodes.count .minusOne = negatedGroups false kinds
  products : nodes.count .product = negatedGroups false kinds
  operations : nodes.countP Entry.isOperation = binaryOperators false kinds
  zeros : nodes.count .zero = if expectedAfter kinds = Kind.operandStart then 1 else 0

section Adds
variable (p : Phase) (groups : Nat) (token : Token) (rest : List Token)

theorem countP_literal_adds (readable : token.Readable) :
    (p.adds groups token rest).countP Entry.isLiteral = if token.kind.isLiteral then 1 else 0 := by
  have hread := fun hk => readable hk p.negative
  unfold Phase.adds
  split
  case h_1 hk | h_2 hk => simp [hk, Entry.isLiteral, Kind.isLiteral]
  case h_3 hk | h_4 hk =>
    obtain ⟨number, hr⟩ := Option.isSome_iff_exists.mp (hread (by rw [hk]; rfl))
    simp [hk, hr, Entry.isLiteral, Kind.isLiteral]
  case h_5 => cases hk : token.kind <;> simp_all [Kind.isLiteral]

theorem countP_operation_adds :
    (p.adds groups token rest).countP Entry.isOperation =
      if p.after && token.kind.operator?.isSome then 1 else 0 := by
  unfold Phase.adds
  generalize Numeral.read? p.negative token = read
  generalize token.kind = kind
  cases p with
  | signed negative => cases negative <;> cases kind <;> cases read <;> rfl
  | _ => cases kind <;> cases read <;> rfl

theorem count_negated_adds (made : Entry) (hm : made = .minusOne ∨ made = .product) :
    (p.adds groups token rest).count made =
      if p.negative && token.kind = .openParen then 1 else 0 := by
  unfold Phase.adds
  generalize Numeral.read? p.negative token = read
  generalize token.kind = kind
  rcases hm with rfl | rfl <;> cases p with
  | signed negative => cases negative <;> cases kind <;> cases read <;> simp [Phase.negative]
  | _ => cases kind <;> cases read <;> simp [Phase.negative]

theorem count_zero_adds : (p.adds groups token rest).count .zero = 0 := by
  unfold Phase.adds
  generalize Numeral.read? p.negative token = read
  split <;> try rfl
  all_goals cases read <;> simp

end Adds

/-- A group counts as negated where its parenthesis is taken, one token behind the sign. -/
theorem negatedGroups_next {p q : Phase} {kind : Kind} (hn : p.next kind = some q)
    (rest : List Kind) :
    (if p.negative && kind = .openParen then 1 else 0) +
        ((if q.negative && rest.head? = some .openParen then 1 else 0) +
          negatedGroups q.after rest) =
      (if p.negative && kind = .openParen then 1 else 0) + negatedGroups p.after (kind :: rest) := by
  rw [negatedGroups, ← Phase.after_next hn]
  unfold Phase.next at hn
  split at hn <;> simp only [Option.some.injEq, reduceCtorEq] at hn <;> subst hn <;>
    simp [Phase.negative, Phase.after]

section Entries
variable {p q : Phase} {tokens : List Token} (hr : p.run (tokens.map Token.kind) = some q)
  (groups : Nat)
include hr

theorem countP_literal_entries (readable : ∀ token ∈ tokens, token.Readable) :
    (entries p groups tokens).countP Entry.isLiteral =
      (tokens.map Token.kind).countP Kind.isLiteral := by
  induction tokens generalizing p groups with
  | nil => rfl
  | cons token rest ih =>
    obtain ⟨q, hn, hr⟩ := Phase.next_of_run_cons hr
    have hadds := countP_literal_adds p groups token rest (readable token (by simp))
    have ih := ih hr (groupsAfter groups token.kind) fun t ht => readable t (by simp [ht])
    rw [entries, hn, List.countP_append, hadds, ih, List.map_cons, List.countP_cons]
    omega

theorem countP_operation_entries :
    (entries p groups tokens).countP Entry.isOperation =
      binaryOperators p.after (tokens.map Token.kind) := by
  induction tokens generalizing p groups with
  | nil => rfl
  | cons token rest ih =>
    obtain ⟨q, hn, hr⟩ := Phase.next_of_run_cons hr
    have ih := ih hr (groupsAfter groups token.kind)
    rw [entries, hn, List.countP_append, countP_operation_adds, ih, List.map_cons, binaryOperators,
      Phase.after_next hn]

theorem count_negated_entries (made : Entry) (hm : made = .minusOne ∨ made = .product) :
    (entries p groups tokens).count made =
      (if p.negative && (tokens.map Token.kind).head? = some .openParen then 1 else 0) +
        negatedGroups p.after (tokens.map Token.kind) := by
  induction tokens generalizing p groups with
  | nil => simp [entries, negatedGroups]
  | cons token rest ih =>
    obtain ⟨q, hn, hr⟩ := Phase.next_of_run_cons hr
    have ih := ih hr (groupsAfter groups token.kind)
    rw [entries, hn, List.count_append, count_negated_adds _ _ _ _ made hm, ih,
      negatedGroups_next hn]
    simp

omit hr in
theorem count_zero_entries : (entries p groups tokens).count .zero = 0 := by
  induction tokens generalizing p groups with
  | nil => rfl
  | cons token rest ih =>
    rw [entries, List.count_append, count_zero_adds]
    cases p.next token.kind with
    | none => rfl
    | some q => exact (Nat.zero_add _).trans (ih _)

end Entries

theorem accounts_arena {tokens : List Token} {q last : Phase}
    (readable : ∀ token ∈ tokens, token.Readable)
    (hr : (Phase.operand false).run (tokens.map Token.kind) = some q)
    (hn : q.next .endOfInput = some last) : Accounts (tokens.map Token.kind) (arena tokens) := by
  have hdue : expectedAfter ([] ++ tokens.map Token.kind) = q.due := due_run hr rfl
  have hz : (entries (.operand false) 0 tokens).count .zero = 0 := count_zero_entries 0
  have hlacks : q.lacks.countP Entry.isLiteral = 0 ∧ q.lacks.countP Entry.isOperation = 0 ∧
      q.lacks.count .minusOne = 0 ∧ q.lacks.count .product = 0 := by
    cases q <;> exact ⟨rfl, rfl, rfl, rfl⟩
  obtain ⟨hl, ho, hm, hp⟩ := hlacks
  have harena : arena tokens = entries (.operand false) 0 tokens ++ q.lacks := by
    rw [arena, hr]
    rfl
  constructor
  · rw [harena, List.countP_append, countP_literal_entries hr 0 readable, hl, Nat.add_zero]
  · rw [harena, List.count_append, count_negated_entries hr 0 _ (.inl rfl), hm]
    simp [Phase.negative, Phase.after]
  · rw [harena, List.count_append, count_negated_entries hr 0 _ (.inr rfl), hp]
    simp [Phase.negative, Phase.after]
  · rw [harena, List.countP_append, countP_operation_entries hr 0, ho]
    rfl
  · rw [harena, List.count_append, hz, ← List.nil_append (tokens.map Token.kind), hdue]
    cases q with
    | operand started => cases started <;> decide
    | operator => decide
    | signed negative => simp [Phase.next] at hn
    | ended => simp [Phase.next] at hn

end Language

namespace Stack
open Reckoner.Language

/-- The operand that has been read but is not in the tree yet. -/
def pending (s : Stack) : List (Content × Nat) :=
  match s.awaiting with
  | .operator operand => operand.sourceOrder
  | _ => []

/-- The frames and the operand hold these nodes in the order of the source. -/
structure Lists (s : Stack) (contents : List Content) : Prop where
  made : s.made = contents.length
  upright : ∀ f ∈ s.frames, f.Upright
  operand : ∀ operand, s.awaiting = .operator operand → operand.isLeaf
  order : spineOrder s.frames ++ s.pending = contents.zipIdx

theorem zipIdx_concat (contents : List Content) (content : Content) :
    (contents ++ [content]).zipIdx = contents.zipIdx ++ [(content, contents.length)] := by
  rw [List.zipIdx_append]
  simp

theorem lt_of_zipIdx {before : List (Content × Nat)} {x : Content × Nat} {contents : List Content}
    (h : before ++ [x] = contents.zipIdx) :
    x.2 + 1 = contents.length ∧ ∀ y ∈ before, y.2 < x.2 := by
  rcases List.eq_nil_or_concat contents with rfl | ⟨init, content, rfl⟩
  · simp at h
  rw [List.concat_eq_append, zipIdx_concat] at h
  obtain ⟨rfl, hx⟩ := List.append_inj' h rfl
  obtain rfl := List.singleton_inj.mp hx
  refine ⟨by simp, fun y hy => ?_⟩
  simpa using List.snd_lt_of_mem_zipIdx hy

theorem content_mem_spineOrder {frames : List Frame} {f : Frame} (hf : f ∈ frames) :
    f.content ∈ spineOrder frames :=
  List.mem_flatMap.mpr ⟨f, hf, by simp⟩

theorem leaf_of_order {frames : List Frame} {operand : Tree} {contents : List Content}
    (leaf : operand.isLeaf)
    (order : spineOrder frames ++ operand.sourceOrder = contents.zipIdx) :
    ∃ id n, operand = .leaf id n ∧ id + 1 = contents.length ∧ ∀ f ∈ frames, f.id < id := by
  cases operand with
  | leaf id n =>
    obtain ⟨hid, hlt⟩ := lt_of_zipIdx order
    exact ⟨id, n, rfl, hid, fun f hf => hlt _ (content_mem_spineOrder hf)⟩
  | hole => contradiction
  | op => contradiction

theorem lists_start : start.Lists [] :=
  ⟨rfl, by simp [start], by simp [start], rfl⟩

theorem lists_operate {s : Stack} {contents : List Content} {operand : Tree}
    (made : s.made = contents.length) (upright : ∀ f ∈ s.frames, f.Upright)
    (leaf : operand.isLeaf)
    (order : spineOrder s.frames ++ operand.sourceOrder = contents.zipIdx)
    (operator : Operator) (tier : Tier) :
    (s.operate operator tier operand).Lists (contents ++ [.operation operator]) := by
  obtain ⟨id, n, rfl, hid, below⟩ := leaf_of_order leaf order
  let new : Tree.Candidate := ⟨s.made, operator, .of s.depth tier, .leaf id n⟩
  have hnew : id < new.id := by
    change id < s.made
    omega
  have hs : spineOrder (Tree.pushed new s.frames) = _ := Tree.spineOrder_pushed upright rfl below
  refine ⟨by simp [operate, made], ?_, by simp [operate], ?_⟩
  · exact Tree.upright_pushed upright rfl below (Tree.complete_leaf id n) hnew
  · change spineOrder (Tree.pushed new s.frames) ++ [] = _
    rw [hs, List.append_nil, zipIdx_concat, ← order, ← made]

theorem adds_literal {s : Stack} {token : Token} {negative : Bool} {number : Number}
    (ha : s.awaiting = .signed negative ∨ s.awaiting = .operand ∧ negative = false)
    (hk : token.kind.isLiteral) (hr : Numeral.read? negative token = some number) (groups : Nat)
    (rest : List Token) :
    s.phase.adds groups token rest = [.literal number (behind groups rest)] := by
  rcases ha with ha | ⟨ha, rfl⟩ <;> cases hkind : token.kind <;>
    simp_all [phase, Phase.adds, Phase.negative, Token.Kind.isLiteral]

/-- A token adds its nodes at the end. -/
theorem lists_step {s s' : Stack} {token : Token} {contents : List Content} (h : s.Lists contents)
    (groups : Nat) (rest : List Token) (step : Step s token s') :
    s'.Lists (contents ++ (s.phase.adds groups token rest).map Entry.content) := by
  obtain ⟨made, upright, operand, order⟩ := h
  cases step with
  | opened ha hk =>
    have hadds : s.phase.adds groups token rest = [] := by
      rcases ha with ha | ha <;> simp [phase, ha, hk, Phase.adds]
    have hp : s.pending = [] := by rcases ha with ha | ha <;> simp [pending, ha]
    rw [hadds, List.map_nil, List.append_nil]
    rw [hp] at order
    exact ⟨made, upright, by simp [openGroup], order⟩
  | negated ha hk =>
    have hadds : s.phase.adds groups token rest = [.minusOne, .product] := by
      simp [phase, ha, hk, Phase.adds]
    have order' : spineOrder s.frames ++ (Tree.leaf s.made (.integer (-1))).sourceOrder =
        (contents ++ [Content.number (.integer (-1))]).zipIdx := by
      rw [zipIdx_concat, ← order, ← made]
      simp [pending, ha, Tree.sourceOrder]
    have hl := lists_operate (s := { s with made := s.made + 1 }) (by simp [made]) upright rfl
      order' .multiply .exponential
    have hc : contents ++ [Entry.minusOne, .product].map Entry.content =
        contents ++ [Content.number (.integer (-1))] ++ [.operation .multiply] := by
      simp [Entry.content]
    rw [hadds, hc]
    exact ⟨hl.made, hl.upright, by simp [openGroup], hl.order⟩
  | signed negative ha hk =>
    have hadds : s.phase.adds groups token rest = [] := by simp [phase, ha, hk, Phase.adds]
    rw [hadds, List.map_nil, List.append_nil]
    exact ⟨made, upright, by simp, by simpa [pending, ha] using order⟩
  | literal negative number ha hk hr =>
    have hp : s.pending = [] := by rcases ha with ha | ⟨ha, -⟩ <;> simp [pending, ha]
    rw [adds_literal ha hk hr]
    refine ⟨by simp [made], upright, ?_, ?_⟩
    · intro operand ho
      obtain rfl := Awaiting.operator.inj ho
      rfl
    · rw [hp, List.append_nil] at order
      simp [pending, Tree.sourceOrder, zipIdx_concat, order, made, Entry.content]
  | closed operand' ha hk =>
    have hadds : s.phase.adds groups token rest = [] := by simp [phase, ha, hk, Phase.adds]
    rw [hadds, List.map_nil, List.append_nil]
    exact ⟨made, upright, operand, order⟩
  | operated operand' operator ha hk =>
    have hadds : s.phase.adds groups token rest = [.operation operator] := by
      simp [phase, ha, hk, Phase.adds]
    rw [hadds]
    have order' : spineOrder s.frames ++ operand'.sourceOrder = contents.zipIdx := by
      simpa [pending, ha] using order
    exact lists_operate made upright (operand operand' ha) order' operator operator.tier

theorem lists_takeAll {s s' : Stack} {tokens : List Token} {contents : List Content}
    (h : s.Lists contents) (groups : Nat) (ht : s.takeAll tokens = some s') :
    s'.Lists (contents ++ (entries s.phase groups tokens).map Entry.content) := by
  induction tokens generalizing s contents groups with
  | nil =>
    obtain rfl := Option.some.inj ht
    simpa [entries] using h
  | cons token rest ih =>
    obtain ⟨s₁, step, ht⟩ := step_of_takeAll_cons ht
    have hl := ih (lists_step h groups rest step) (groupsAfter groups token.kind) ht
    rw [entries, phase_step step]
    simpa using hl

theorem lists_of_takeAll {s : Stack} {tokens : List Token} (h : start.takeAll tokens = some s) :
    s.Lists ((entries (.operand false) 0 tokens).map Entry.content) :=
  lists_takeAll lists_start 0 h

theorem Lists.sorted {s : Stack} {contents : List Content} (h : s.Lists contents) :
    ((spineOrder s.frames).map Prod.snd).Pairwise (· < ·) := by
  have all : ((spineOrder s.frames ++ s.pending).map Prod.snd).Pairwise (· < ·) := by
    rw [h.order]
    exact Tree.increasing_zipIdx contents
  rw [List.map_append] at all
  exact (List.pairwise_append.mp all).1

/-- While an operand is awaited, the last operation of the spine is all that lacks one. -/
theorem Lists.open_tree {s : Stack} {contents : List Content} (h : s.Lists contents)
    (ha : s.awaiting = .operand) :
    (s.frames = [] ∧ contents = []) ∨
    (assemble s.frames .hole).Houses contents ∧
      ∃ slot, (assemble s.frames .hole).lacking = [(slot, .right)] ∧
        (assemble s.frames .hole).spine.getLast? = some slot := by
  have order : spineOrder s.frames = contents.zipIdx := by
    simpa [pending, ha] using h.order
  by_cases hne : s.frames = []
  · refine .inl ⟨hne, ?_⟩
    rw [hne] at order
    simpa [spineOrder] using order.symm
  · refine .inr ⟨?_, (s.frames.getLast hne).id, lacking_assemble h.upright hne, ?_⟩
    · exact Tree.houses_of_sourceOrder ((sourceOrder_assemble_hole h.upright).trans order)
    · rw [spine_assemble, List.getLast?_map, List.getLast?_eq_some_getLast hne]
      rfl

theorem Lists.exists_assemble {s : Stack} {contents : List Content} (h : s.Lists contents)
    {tree : Tree} (hf : s.finish = some tree) : ∃ id n, tree = assemble s.frames (.leaf id n) := by
  cases ha : s.awaiting with
  | operand =>
    simp only [finish, ha] at hf
    split at hf
    · contradiction
    · exact ⟨_, _, (Option.some.inj hf).symm⟩
  | signed negative => simp [finish, ha] at hf
  | operator operand =>
    simp only [finish, ha] at hf
    have leaf := h.operand operand ha
    cases operand with
    | leaf id n => exact ⟨id, n, (Option.some.inj hf).symm⟩
    | hole | op => contradiction

theorem Lists.whole_tree {s : Stack} {contents : List Content} (h : s.Lists contents) {tree : Tree}
    (hf : s.finish = some tree) :
    tree.Complete ∧ tree.sourceOrder = (contents ++ s.phase.lacks.map Entry.content).zipIdx := by
  cases ha : s.awaiting with
  | operand =>
    simp only [finish, ha] at hf
    split at hf
    · contradiction
    obtain rfl := Option.some.inj hf
    have order : spineOrder s.frames = contents.zipIdx := by simpa [pending, ha] using h.order
    refine ⟨complete_assemble h.upright (Tree.complete_leaf _ _), ?_⟩
    rw [sourceOrder_assemble h.upright, order]
    simp [phase, ha, Phase.lacks, Entry.content, zipIdx_concat, Tree.sourceOrder, h.made]
  | signed negative => simp [finish, ha] at hf
  | operator operand =>
    simp only [finish, ha] at hf
    obtain rfl := Option.some.inj hf
    have order : spineOrder s.frames ++ operand.sourceOrder = contents.zipIdx := by
      simpa [pending, ha] using h.order
    obtain ⟨id, n, rfl, -, -⟩ := leaf_of_order (h.operand operand ha) order
    refine ⟨complete_assemble h.upright (Tree.complete_leaf _ _), ?_⟩
    rw [sourceOrder_assemble h.upright, order]
    simp [phase, ha, Phase.lacks]

end Stack

section Parse
open Reckoner.Language
variable {source : String} {symbols : Numeral.Symbols}

theorem Stack.exists_of_takeAll {before after : List Token} {b : Builder}
    (hb : (Scanner.ofSource source symbols).scan.1 = before ++ after)
    (ht : (Builder.start source).takeAll before = (.ok (), b)) :
    ∃ s placements, start.takeAll before = some s ∧ b = s.builder source placements := by
  have readable : ∀ token ∈ before, token.Readable := fun token mem =>
    Scanner.readable_of_mem_scan _ token (by rw [hb]; simp [mem])
  cases hs : start.takeAll before with
  | none =>
    obtain ⟨_, _, _, _, -, -, -, he⟩ := takeAll_builder_error stacked_start readable source [] hs
    change ((Builder.start source).takeAll before).1 = _ at he
    rw [ht] at he
    contradiction
  | some s =>
    obtain ⟨placements, hs⟩ := takeAll_builder stacked_start source [] hs
    exact ⟨s, placements, rfl, congrArg Prod.snd (ht.symm.trans hs)⟩

theorem sourceOrder_of_parse {tree : Tree} (h : (parse source symbols).tree = .ok tree) :
    tree.Complete ∧ tree.sourceOrder =
      ((arena (Scanner.ofSource source symbols).scan.1).map Entry.content).zipIdx := by
  obtain ⟨final, s, -, ht, hf⟩ := parse_eq_ok_iff.mp h
  have hl := Stack.lists_of_takeAll ht
  have hr : (Phase.operand false).run _ = some s.phase := Stack.phase_takeAll ht
  have hw := hl.whole_tree hf
  rw [arena, hr]
  simpa using hw

theorem accounts_of_parse {tree : Tree} (h : (parse source symbols).tree = .ok tree) :
    Accounts ((Scanner.ofSource source symbols).scan.1.map Token.kind)
      (arena (Scanner.ofSource source symbols).scan.1) := by
  obtain ⟨final, s, -, ht, hf⟩ := parse_eq_ok_iff.mp h
  have hn : s.phase.next .endOfInput = some .ended := by
    rw [Stack.next_phase_endOfInput, hf]
    rfl
  exact accounts_arena (Scanner.readable_of_mem_scan _) (Stack.phase_takeAll ht) hn

variable (source symbols)

/-- No node is lost or doubled: at each point where an operand is awaited, the tree houses the nodes
of the tokens before it and lacks one operand at the end of its spine; a parsed tree houses those
of all tokens and lacks none. -/
theorem parse_houses_nodes :
    (∀ before after b, (Scanner.ofSource source symbols).scan.1 = before ++ after →
      (Builder.start source).takeAll before = (.ok (), b) → b.awaiting = .operand →
      b.made = (entries (.operand false) 0 before).length ∧
      (b.tree = .hole ∧ b.made = 0 ∨
        b.tree.Houses ((entries (.operand false) 0 before).map Entry.content) ∧
        ∃ slot, b.tree.lacking = [(slot, .right)] ∧ b.tree.spine.getLast? = some slot)) ∧
    ∀ tree, (parse source symbols).tree = .ok tree →
      tree.Complete ∧
      tree.Houses ((arena (Scanner.ofSource source symbols).scan.1).map Entry.content) ∧
      Accounts ((Scanner.ofSource source symbols).scan.1.map Token.kind)
        (arena (Scanner.ofSource source symbols).scan.1) := by
  constructor
  · intro before after b hb ht ha
    obtain ⟨s, placements, hs, rfl⟩ := Stack.exists_of_takeAll hb ht
    have hl := Stack.lists_of_takeAll hs
    have made : s.made = (entries (.operand false) 0 before).length := by simpa using hl.made
    refine ⟨made, ?_⟩
    rcases hl.open_tree ha with ⟨hframes, hnone⟩ | ⟨houses, hslot⟩
    · refine .inl ⟨?_, ?_⟩
      · change assemble s.frames .hole = .hole
        rw [hframes, assemble_nil]
      · change s.made = 0
        have hnone : entries (.operand false) 0 before = [] := by simpa using hnone
        rw [made, hnone, List.length_nil]
    · exact .inr ⟨houses, hslot⟩
  · intro tree h
    obtain ⟨complete, order⟩ := sourceOrder_of_parse h
    exact ⟨complete, Tree.houses_of_sourceOrder order, accounts_of_parse h⟩

end Parse

open Reckoner.Language in
/-- A negated group that is left open has made its factor and its product, a zero ends it. -/
theorem nodes_of_open_negated_group :
    let tokens := (Scanner.ofSource "2*-(3+" .standard).scan.1
    let tree : Tree := .op 1 .multiply 1 (.leaf 0 (.integer 2))
      (.op 3 .multiply 2 (.leaf 2 (.integer (-1)))
        (.op 5 .add 3 (.leaf 4 (.integer 3)) (.leaf 6 (.integer 0))))
    let nodes : List Entry := [.literal (.integer 2) (some 1), .operation .multiply, .minusOne,
      .product, .literal (.integer 3) (some 3), .operation .add, .zero]
    (∃ b, (Builder.start "2*-(3+").takeAll (tokens.take 4) = (.ok (), b) ∧ b.made = 4 ∧
      b.tree.Houses ((nodes.take 4).map Entry.content) ∧ b.tree.lacking = [(3, .right)]) ∧
      (parse "2*-(3+" .standard).tree = .ok tree ∧ tree.Complete ∧
      tree.Houses (nodes.map Entry.content) ∧ Accounts (tokens.map Token.kind) nodes := by
  intro tokens tree nodes
  obtain ⟨reached, parsed⟩ := parse_houses_nodes "2*-(3+" .standard
  have h : (parse "2*-(3+" .standard).tree = .ok tree := eq_ok_of_toOption (by decide +kernel)
  have listed : arena tokens = nodes := by decide +kernel
  have begun : (entries (.operand false) 0 (tokens.take 4)).map Entry.content =
      (nodes.take 4).map Entry.content := by decide +kernel
  let b : Builder := ((Builder.start "2*-(3+").takeAll (tokens.take 4)).2
  have hb : (Builder.start "2*-(3+").takeAll (tokens.take 4) = (.ok (), b) :=
    Prod.ext (eq_ok_of_toOption (by decide +kernel)) rfl
  have awaiting : b.awaiting = .operand := by decide +kernel
  obtain ⟨made, ⟨none, -⟩ | ⟨houses, slot, lacking, last⟩⟩ :=
    reached _ _ b (List.take_append_drop 4 tokens).symm hb awaiting
  · exact absurd none (by decide +kernel)
  obtain ⟨complete, houses', accounts⟩ := parsed tree h
  rw [begun] at houses
  have open_slot : b.tree.lacking = [(3, .right)] := by decide +kernel
  rw [listed] at houses' accounts
  exact ⟨⟨b, hb, made.trans (by decide +kernel), houses, open_slot⟩, h, complete, houses', accounts⟩

end Reckoner

import Mathlib.Data.List.Induction
import Reckoner.Proofs.Nodes

/-! Levels and the groups of a source. Main statement: nothing wraps around, an operation has the
level of its tier above those of the groups that are open at it, and so it lies above all that stands
directly in a group around its own. -/
namespace Reckoner

namespace Language
open Token (Kind)

/-- The open groups behind a token of this kind, which stands at this position. -/
def nestAfter (groups : List Nat) (position : Nat) : Kind → List Nat
  | .openParen => position :: groups
  | .closeParen => groups.tail
  | _ => groups

/-- The groups that are open behind tokens, the innermost first. A group goes by the position of the
parenthesis that opens it; one that closes none is passed over. -/
def openGroups (tokens : List Token) : List Nat :=
  tokens.zipIdx.foldl (fun groups token => nestAfter groups token.2 token.1.kind) []

/-- The group that is the innermost behind `around`, if there is one, is open where the other group
begins. -/
def Surrounds (tokens around : List Token) (group : Nat) : Prop :=
  ∀ innermost, (openGroups around).head? = some innermost →
    innermost ∈ openGroups (tokens.take group)

theorem openGroups_concat (tokens : List Token) (token : Token) :
    openGroups (tokens ++ [token]) = nestAfter (openGroups tokens) tokens.length token.kind := by
  simp [openGroups, List.zipIdx_append]

theorem length_nestAfter (groups : List Nat) (position : Nat) (kind : Kind) :
    (nestAfter groups position kind).length = groupsAfter groups.length kind := by
  cases kind <;> simp [nestAfter, groupsAfter]

theorem mem_of_mem_nestAfter {groups : List Nat} {position group : Nat} {kind : Kind}
    (h : group ∈ nestAfter groups position kind) : group = position ∨ group ∈ groups := by
  cases kind with
  | openParen => exact List.mem_cons.mp h
  | closeParen => exact .inr (List.mem_of_mem_tail h)
  | _ => exact .inr h

theorem length_openGroups (tokens : List Token) : (openGroups tokens).length =
    tokens.foldl (fun groups token => groupsAfter groups token.kind) 0 := by
  induction tokens using List.reverseRecOn with
  | nil => rfl
  | append_singleton tokens token ih =>
    rw [openGroups_concat, length_nestAfter, ih, List.foldl_append]
    rfl

theorem lt_of_mem_openGroups {tokens : List Token} {group : Nat} (h : group ∈ openGroups tokens) :
    group < tokens.length := by
  induction tokens using List.reverseRecOn with
  | nil => exact absurd h List.not_mem_nil
  | append_singleton tokens token ih =>
    rw [openGroups_concat] at h
    rw [List.length_append, List.length_singleton]
    rcases mem_of_mem_nestAfter h with rfl | h
    · exact Nat.lt_succ_self _
    · exact Nat.lt_succ_of_lt (ih h)

theorem pairwise_openGroups (tokens : List Token) : (openGroups tokens).Pairwise (· > ·) := by
  induction tokens using List.reverseRecOn with
  | nil => exact .nil
  | append_singleton tokens token ih =>
    rw [openGroups_concat]
    cases token.kind with
    | openParen => exact .cons (fun _ h => lt_of_mem_openGroups h) ih
    | closeParen => exact ih.tail
    | _ => exact ih

/-- As long as a group is open, so are the groups that were open where it began. -/
theorem exists_openGroups_eq {tokens : List Token} {group : Nat} (h : group ∈ openGroups tokens) :
    ∃ inner, openGroups tokens = inner ++ group :: openGroups (tokens.take group) := by
  induction tokens using List.reverseRecOn with
  | nil => exact absurd h List.not_mem_nil
  | append_singleton tokens token ih =>
    have begun : ∀ g ∈ openGroups tokens, (tokens ++ [token]).take g = tokens.take g := fun g hg =>
      List.take_append_of_le_length (Nat.le_of_lt (lt_of_mem_openGroups hg))
    rw [openGroups_concat] at h ⊢
    cases hk : token.kind with
    | openParen =>
      rw [hk] at h
      rcases List.mem_cons.mp h with rfl | h
      · exact ⟨[], by simp [nestAfter]⟩
      · obtain ⟨inner, eq⟩ := ih h
        exact ⟨tokens.length :: inner, by rw [begun group h, nestAfter, eq]; rfl⟩
    | closeParen =>
      rw [hk] at h
      obtain ⟨inner, eq⟩ := ih (List.mem_of_mem_tail h)
      rw [begun group (List.mem_of_mem_tail h), nestAfter]
      cases inner with
      | nil =>
        -- the group that has been closed is not open any more
        rw [nestAfter, eq] at h
        have lt := lt_of_mem_openGroups h
        rw [List.length_take] at lt
        omega
      | cons closed inner => exact ⟨inner, by rw [eq]; rfl⟩
    | _ =>
      rw [hk] at h
      obtain ⟨inner, eq⟩ := ih h
      exact ⟨inner, by rw [begun group h]; exact eq⟩

theorem openGroups_eq_cons {tokens : List Token} {group : Nat}
    (h : (openGroups tokens).head? = some group) :
    openGroups tokens = group :: openGroups (tokens.take group) := by
  obtain ⟨inner, eq⟩ := exists_openGroups_eq (List.mem_of_head? h)
  have sorted := pairwise_openGroups tokens
  rw [eq] at h sorted
  cases inner with
  | nil => exact eq
  | cons first inner =>
    obtain rfl := Option.some.inj h
    exact absurd ((List.pairwise_cons.mp sorted).1 first (by simp)) (Nat.lt_irrefl _)

theorem length_openGroups_lt_of_surrounds {tokens inside around after rest : List Token} {group : Nat}
    (hi : tokens = inside ++ after) (ha : tokens = around ++ rest) (mem : group ∈ openGroups inside)
    (surrounds : Surrounds tokens around group) :
    (openGroups around).length < (openGroups inside).length := by
  have began : openGroups (inside.take group) = openGroups (tokens.take group) := by
    rw [hi, List.take_append_of_le_length (Nat.le_of_lt (lt_of_mem_openGroups mem))]
  obtain ⟨inner, eq⟩ := exists_openGroups_eq mem
  rw [eq, began, List.length_append, List.length_cons]
  cases hd : (openGroups around).head? with
  | none =>
    rw [List.head?_eq_none_iff.mp hd, List.length_nil]
    omega
  | some innermost =>
    have outer := surrounds innermost hd
    obtain ⟨between, eq'⟩ := exists_openGroups_eq outer
    have below : (tokens.take group).take innermost = around.take innermost := by
      have lt := lt_of_mem_openGroups outer
      rw [List.take_take, Nat.min_eq_left (by simp at lt; omega), ha,
        List.take_append_of_le_length (Nat.le_of_lt (lt_of_mem_openGroups (List.mem_of_head? hd)))]
    rw [openGroups_eq_cons hd, eq', below, List.length_append, List.length_cons]
    omega

end Language

open Reckoner.Language

namespace Tree

/-- The operations of the tree with what they do and their levels. -/
def ranked : Tree → List (Nat × Operator × Level)
  | op id operator level left right => (id, operator, level) :: (left.ranked ++ right.ranked)
  | _ => []

end Tree

namespace Frame

def ranked (f : Frame) : List (Nat × Operator × Level) :=
  (f.id, f.operator, f.level) :: f.left.ranked

theorem ranked_close (f : Frame) (right : Tree) :
    (f.close right).ranked = f.ranked ++ right.ranked := rfl

theorem mem_ranked_take {f : Frame} {level : Level} {operand : Tree} {x : Nat × Operator × Level} :
    x ∈ (f.take level operand).ranked ↔ x ∈ f.ranked ∨ x ∈ operand.ranked := by
  rw [take]
  split
  · simp only [Tree.ranked, ranked, List.mem_cons, List.mem_append]
    tauto
  · rw [ranked_close, List.mem_append]

end Frame

section Spine
variable {x : Nat × Operator × Level}

theorem ranked_assemble (frames : List Frame) (rest : Tree) :
    (assemble frames rest).ranked = frames.flatMap Frame.ranked ++ rest.ranked := by
  induction frames with
  | nil => rfl
  | cons f frames ih =>
    rw [assemble_cons, Frame.ranked_close, ih, List.flatMap_cons, List.append_assoc]

theorem mem_ranked_settle {level : Level} {operand : Tree} {frames : List Frame} :
    x ∈ (settle level operand frames).ranked ↔
      x ∈ frames.flatMap Frame.ranked ∨ x ∈ operand.ranked := by
  induction frames with
  | nil => simp [settle]
  | cons f frames ih =>
    cases frames with
    | nil => simp [settle, Frame.mem_ranked_take]
    | cons g frames =>
      rw [settle_cons_cons, Frame.ranked_close, List.mem_append, ih, ← or_assoc, ← List.mem_append]
      rfl

theorem mem_ranked_pushed (new : Tree.Candidate) (frames : List Frame)
    (leaf : new.operand.ranked = []) :
    x ∈ (Tree.pushed new frames).flatMap Frame.ranked ↔
      x ∈ frames.flatMap Frame.ranked ∨ x = (new.id, new.operator, new.level) := by
  have whole : x ∈ frames.flatMap Frame.ranked ↔ x ∈ (kept new.level frames).flatMap Frame.ranked ∨
      x ∈ (closed new.level frames).flatMap Frame.ranked := by
    rw [← List.mem_append, ← List.flatMap_append, kept_append_closed]
  simp only [Tree.pushed, List.flatMap_append, List.flatMap_singleton, List.mem_append,
    Frame.ranked, Tree.Candidate.frame, List.mem_cons, mem_ranked_settle, leaf, List.not_mem_nil,
    or_false, whole]
  tauto

end Spine

/-- The operation that a token makes: an operator its own, and the parenthesis of a negated group the
product with -1, which stands outside the group. -/
inductive Builder.Makes (b : Builder) (token : Token) : Tier → Nat × Operator × Level → Prop
  | operator {operand : Tree} {operator : Operator} (ha : b.awaiting = .operator operand)
      (hk : token.kind = .operator operator) :
      Makes b token operator.tier (b.made, operator, .of b.depth operator.tier)
  | product (ha : b.awaiting = .signed true) (hk : token.kind = .openParen) :
      Makes b token .exponential (b.made + 1, .multiply, .of b.depth .exponential)

/-- The token behind some others makes this operation when the source is parsed. -/
def MadeAt (source : String) (before : List Token) (token : Token) (tier : Tier)
    (operation : Nat × Operator × Level) : Prop :=
  ∃ b, (Builder.start source).takeAll before = (.ok (), b) ∧ b.Makes token tier operation

/-- One of the tokens makes this operation. -/
def MadeAmong (source : String) (tokens : List Token) (operation : Nat × Operator × Level) : Prop :=
  ∃ before token after tier, tokens = before ++ token :: after ∧
    MadeAt source before token tier operation

theorem madeAmong_concat {source : String} {tokens : List Token} {token : Token}
    {operation : Nat × Operator × Level} : MadeAmong source (tokens ++ [token]) operation ↔
      MadeAmong source tokens operation ∨ ∃ tier, MadeAt source tokens token tier operation := by
  constructor
  · rintro ⟨before, t, after, tier, split, made⟩
    rcases List.eq_nil_or_concat after with rfl | ⟨after, last, rfl⟩
    · obtain ⟨rfl, rest⟩ := List.append_inj' split rfl
      obtain rfl := List.head_eq_of_cons_eq rest
      exact .inr ⟨tier, made⟩
    · refine .inl ⟨before, t, after, tier, ?_, made⟩
      rw [List.concat_eq_append, ← List.cons_append, ← List.append_assoc] at split
      exact (List.append_inj' split rfl).1
  · rintro (⟨before, t, after, tier, rfl, made⟩ | ⟨tier, made⟩)
    · exact ⟨before, t, after ++ [token], tier, by simp, made⟩
    · exact ⟨tokens, token, [], tier, rfl, made⟩

namespace Stack

theorem leveled_of_takeAll {s : Stack} {tokens : List Token} (few : opens tokens < maxGroups)
    (ht : start.takeAll tokens = some s) : s.Leveled (openGroups tokens).length := by
  rw [length_openGroups]
  exact leveled_run (by rwa [Nat.zero_add]) leveled_start ht

theorem ranked_of_isLeaf {tree : Tree} (h : tree.isLeaf) : tree.ranked = [] := by
  cases tree <;> simp_all [Tree.isLeaf, Tree.ranked]

section Step
variable {s s' : Stack} {token : Token} (source : String) (placements : List Placement)
  {x : Nat × Operator × Level}

/-- The operations of the spine and below it are those that were there and the one that the token
makes. -/
theorem mem_ranked_step {contents : List Content} (lists : s.Lists contents)
    (step : Step s token s') :
    x ∈ s'.frames.flatMap Frame.ranked ↔ x ∈ s.frames.flatMap Frame.ranked ∨
      ∃ tier, (s.builder source placements).Makes token tier x := by
  cases step with
  | negated ha hk =>
    have pushed := mem_ranked_pushed (x := x)
      ⟨s.made + 1, .multiply, .of s.depth .exponential, .leaf s.made (.integer (-1))⟩ s.frames rfl
    refine pushed.trans (or_congr_right ⟨?_, ?_⟩)
    · rintro rfl
      exact ⟨_, .product ha hk⟩
    · rintro ⟨_, made⟩
      cases made with
      | operator ha' => exact Awaiting.noConfusion (ha.symm.trans ha')
      | product => rfl
  | operated operand operator ha hk =>
    have pushed := mem_ranked_pushed (x := x)
      ⟨s.made, operator, .of s.depth operator.tier, operand⟩ s.frames
      (ranked_of_isLeaf (lists.operand operand ha))
    refine pushed.trans (or_congr_right ⟨?_, ?_⟩)
    · rintro rfl
      exact ⟨_, .operator ha hk⟩
    · rintro ⟨_, made⟩
      cases made with
      | operator _ hk' =>
        obtain rfl := Token.Kind.operator.inj (hk.symm.trans hk')
        rfl
      | product ha' => exact Awaiting.noConfusion (ha.symm.trans ha')
  | opened ha hk =>
    refine (or_iff_left ?_).symm
    rintro ⟨_, made⟩
    rcases ha with ha | ha <;> cases made <;> simp_all [builder]
  | signed negative ha hk =>
    refine (or_iff_left ?_).symm
    rintro ⟨_, made⟩
    cases made <;> simp_all [builder]
  | literal negative number ha hk hr =>
    refine (or_iff_left ?_).symm
    rintro ⟨_, made⟩
    rcases ha with ha | ⟨ha, -⟩ <;> cases made <;> simp_all [Token.Kind.isLiteral]
  | closed operand ha hk =>
    refine (or_iff_left ?_).symm
    rintro ⟨_, made⟩
    cases made <;> simp_all

end Step

theorem mem_ranked_of_takeAll {s : Stack} {tokens : List Token} (source : String)
    (ht : start.takeAll tokens = some s) {x : Nat × Operator × Level} :
    x ∈ s.frames.flatMap Frame.ranked ↔ MadeAmong source tokens x := by
  induction tokens using List.reverseRecOn generalizing s with
  | nil =>
    obtain rfl := Option.some.inj ht
    constructor
    · intro h
      exact absurd h List.not_mem_nil
    · rintro ⟨before, token, after, _, split, -⟩
      exact absurd split (by simp)
  | append_singleton tokens token ih =>
    obtain ⟨s₁, before, step⟩ := step_of_takeAll_concat ht
    obtain ⟨placements, run⟩ := takeAll_builder stacked_start source [] before
    have here : (∃ tier, (s₁.builder source placements).Makes token tier x) ↔
        ∃ tier, MadeAt source tokens token tier x := by
      constructor
      · rintro ⟨tier, makes⟩
        exact ⟨tier, _, run, makes⟩
      · rintro ⟨tier, b, reached, makes⟩
        obtain rfl := congrArg Prod.snd (reached.symm.trans run)
        exact ⟨tier, makes⟩
    rw [mem_ranked_step source placements (lists_of_takeAll before) step, ih before, here,
      madeAmong_concat]

end Stack

section Parse
variable {source : String} {symbols : Numeral.Symbols}

theorem mem_ranked_of_parse {tree : Tree} (h : (parse source symbols).tree = .ok tree)
    {x : Nat × Operator × Level} :
    x ∈ tree.ranked ↔ MadeAmong source (Scanner.ofSource source symbols).scan.1 x := by
  obtain ⟨final, s, -, ht, hf⟩ := parse_eq_ok_iff.mp h
  obtain ⟨id, n, rfl⟩ := (Stack.lists_of_takeAll ht).exists_assemble hf
  rw [ranked_assemble, Stack.ranked_of_isLeaf rfl, List.append_nil]
  exact Stack.mem_ranked_of_takeAll source ht

theorem depth_of_reached (few : opens (Scanner.ofSource source symbols).scan.1 < maxGroups)
    {before after : List Token} {b : Builder}
    (split : (Scanner.ofSource source symbols).scan.1 = before ++ after)
    (reached : (Builder.start source).takeAll before = (.ok (), b)) :
    b.depth.toNat = (openGroups before).length ∧ b.depth.toNat < maxGroups := by
  obtain ⟨s, placements, hs, rfl⟩ := Stack.exists_of_takeAll split reached
  rw [split, opens_append] at few
  have leveled := Stack.leveled_of_takeAll (by omega) hs
  have depth : s.depth.toNat = (openGroups before).length := leveled.depth
  exact ⟨depth, depth ▸ leveled.few⟩

theorem level_of_makes {b : Builder} {token : Token} {tier : Tier}
    {operation : Nat × Operator × Level} (h : b.Makes token tier operation) :
    operation.2.2 = .of b.depth tier := by
  cases h <;> rfl

theorem level_of_madeAt (few : opens (Scanner.ofSource source symbols).scan.1 < maxGroups)
    {before after : List Token} {token : Token} {tier : Tier} {operation : Nat × Operator × Level}
    (split : (Scanner.ofSource source symbols).scan.1 = before ++ token :: after)
    (made : MadeAt source before token tier operation) :
    operation.2.2.toNat = (openGroups before).length * 3 + tier.rank.toNat := by
  obtain ⟨b, reached, makes⟩ := made
  obtain ⟨depth, small⟩ := depth_of_reached few split reached
  rw [level_of_makes makes, Level.toNat_of small, depth]

end Parse

/-- No depth and no level wraps around: at each point the depth is the number of groups that are
open, and the operations of the tree, the products of negated groups among them, are those that
tokens have made, each with the level of its tier at the depth of its token. An operation inside a
group lies above each operation that stands directly in a group around it, or in none. -/
theorem levels_reflect_nesting (source : String) (symbols : Numeral.Symbols)
    (few : opens (Scanner.ofSource source symbols).scan.1 < maxGroups) :
    let tokens := (Scanner.ofSource source symbols).scan.1
    (∀ before after b, tokens = before ++ after →
      (Builder.start source).takeAll before = (.ok (), b) →
      b.depth.toNat = (openGroups before).length ∧
      b.depth.toNat + 1 < UInt32.size ∧
      (∀ tier : Tier, b.depth.toNat * 3 + tier.rank.toNat < UInt32.size) ∧
      ∀ operation, operation ∈ b.tree.ranked ↔ MadeAmong source before operation) ∧
    (∀ tree, (parse source symbols).tree = .ok tree →
      ∀ operation, operation ∈ tree.ranked ↔ MadeAmong source tokens operation) ∧
    (∀ before token after tier operation, tokens = before ++ token :: after →
      MadeAt source before token tier operation →
      operation.2.2.toNat = (openGroups before).length * 3 + tier.rank.toNat) ∧
    ∀ inside token after tier inner around token' after' tier' outer,
      tokens = inside ++ token :: after → MadeAt source inside token tier inner →
      tokens = around ++ token' :: after' → MadeAt source around token' tier' outer →
      ∀ group ∈ openGroups inside, Surrounds tokens around group → outer.2.2 < inner.2.2 := by
  intro tokens
  refine ⟨fun before after b split reached => ?_, fun tree h operation => mem_ranked_of_parse h,
    fun before token after tier operation split made => level_of_madeAt few split made, ?_⟩
  · obtain ⟨depth, small⟩ := depth_of_reached few split reached
    obtain ⟨s, placements, hs, rfl⟩ := Stack.exists_of_takeAll split reached
    rw [maxGroups] at small
    refine ⟨depth, Nat.lt_of_le_of_lt small (by decide), fun tier => ?_, fun operation => ?_⟩
    · have hr := tier.rank_le
      rw [UInt32.size]
      omega
    · have ranked : (s.builder source placements).tree.ranked = s.frames.flatMap Frame.ranked :=
        (ranked_assemble s.frames .hole).trans (List.append_nil _)
      rw [ranked]
      exact Stack.mem_ranked_of_takeAll source hs
  · intro inside token after tier inner around token' after' tier' outer hi made ha made' group mem
      surrounds
    have lt := length_openGroups_lt_of_surrounds hi ha mem surrounds
    have hr := tier'.rank_le
    rw [UInt32.lt_iff_toNat_lt, level_of_madeAt few hi made, level_of_madeAt few ha made']
    omega

/-- The product of a negated group stands outside the group; the parenthesis that closes none is
passed over. -/
theorem levels_of_negated_group :
    let source := "2^-((3-4)*5))+6"
    let tokens := (Scanner.ofSource source .standard).scan.1
    opens tokens < maxGroups ∧ openGroups (tokens.take 6) = [4, 3] ∧
      openGroups (tokens.take 3) = [] ∧
      (∃ tree, (parse source .standard).tree = .ok tree ∧
        tree.ranked = [(9, .add, 0), (1, .power, 2), (3, .multiply, 2), (7, .multiply, 4),
          (5, .subtract, 6)] ∧
        ∀ operation ∈ tree.ranked, MadeAmong source tokens operation) ∧
      ∃ inner outer, MadeAt source (tokens.take 6) ⟨.operator .subtract, "-", 6⟩ .additive inner ∧
        MadeAt source (tokens.take 3) ⟨.openParen, "(", 3⟩ .exponential outer ∧
        outer.2.2 < inner.2.2 := by
  intro source tokens
  have few : opens tokens < maxGroups := by decide +kernel
  obtain ⟨-, trees, -, nested⟩ := levels_reflect_nesting source .standard few
  have h : (parse source .standard).tree = .ok
      (.op 9 .add 0
        (.op 1 .power 2 (.leaf 0 (.integer 2))
          (.op 3 .multiply 2 (.leaf 2 (.integer (-1)))
            (.op 7 .multiply 4 (.leaf 8 (.integer 5))
              (.op 5 .subtract 6 (.leaf 4 (.integer 3)) (.leaf 6 (.integer 4))))))
        (.leaf 10 (.integer 6))) :=
    eq_ok_of_toOption (by decide +kernel)
  have inside : openGroups (tokens.take 6) = [4, 3] := by decide +kernel
  have around : openGroups (tokens.take 3) = [] := by decide +kernel
  let b : Builder := ((Builder.start source).takeAll (tokens.take 6)).2
  have hb : (Builder.start source).takeAll (tokens.take 6) = (.ok (), b) :=
    Prod.ext (eq_ok_of_toOption (by decide +kernel)) rfl
  have awaiting : b.awaiting = .operator (.leaf 4 (.integer 3)) := by decide +kernel
  let c : Builder := ((Builder.start source).takeAll (tokens.take 3)).2
  have hc : (Builder.start source).takeAll (tokens.take 3) = (.ok (), c) :=
    Prod.ext (eq_ok_of_toOption (by decide +kernel)) rfl
  have awaiting' : c.awaiting = .signed true := by decide +kernel
  have inner : MadeAt source (tokens.take 6) ⟨.operator .subtract, "-", 6⟩ Operator.subtract.tier
      (b.made, .subtract, .of b.depth Operator.subtract.tier) := ⟨b, hb, .operator awaiting rfl⟩
  have outer : MadeAt source (tokens.take 3) ⟨.openParen, "(", 3⟩ .exponential
      (c.made + 1, .multiply, .of c.depth .exponential) := ⟨c, hc, .product awaiting' rfl⟩
  refine ⟨few, inside, around, ⟨_, h, rfl, fun operation mem => (trees _ h operation).mp mem⟩,
    _, _, inner, outer, ?_⟩
  refine nested (tokens.take 6) _ (tokens.drop 7) _ _ (tokens.take 3) _ (tokens.drop 4) _ _
    (by decide +kernel) inner (by decide +kernel) outer 3 (by simp [inside]) ?_
  intro innermost head
  rw [around] at head
  contradiction

end Reckoner

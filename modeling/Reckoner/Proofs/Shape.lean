import Reckoner.Proofs.Arrangement

/-! The shape of a parsed tree. Main statement: its nodes, the levels of its operations, which
operations are operands of which and where operands are exchanged are as the tokens tell, and no
other tree is like that. -/
namespace Reckoner
open Reckoner.Language

/-- The level of a node that is an operation and has so many groups open around it. -/
def Entry.level? (groups : Nat) : Entry → Option Nat
  | product => some (groups * 3 + Tier.exponential.rank.toNat)
  | operation operator => some (levelAt groups operator)
  | literal .. | minusOne | zero => none

/-- The levels of the nodes that tokens add, operations or not. -/
def Language.levels (p : Phase) (groups : Nat) : List Token → List (Option Nat)
  | [] => []
  | token :: rest =>
    (p.adds groups token rest).map (Entry.level? groups) ++
      match p.next token.kind with
      | some q => levels q (groupsAfter groups token.kind) rest
      | none => []

/-- A tree of the nodes of these tokens: each stands at its place between the others, each operation
has its level and both operands, and levels decide which operation is an operand of which. -/
structure Tree.Follows (tree : Tree) (tokens : List Token) : Prop where
  complete : tree.Complete
  houses : tree.Houses ((arena tokens).map Entry.content)
  levels : tree.Everywhere fun id _ level _ _ =>
    (Language.levels (.operand false) 0 tokens)[id]? = some (some level.toNat)
  shaped : tree.Everywhere (Tree.Shaped (arena tokens))

theorem Tree.Follows.formed {tree : Tree} {tokens : List Token} (h : tree.Follows tokens) :
    tree.Everywhere (Formed (arena tokens) (Language.levels (.operand false) 0 tokens)) := by
  intro path id operator level left right hp
  obtain ⟨⟨commutes, -, -⟩, graded, exchanges⟩ := h.shaped path id operator level left right hp
  exact ⟨commutes, graded, exchanges, h.levels path id operator level left right hp⟩

theorem Tree.Follows.sourceOrder {tree : Tree} {tokens : List Token} (h : tree.Follows tokens) :
    tree.Sorted ∧ tree.sourceOrder = ((arena tokens).map Entry.content).zipIdx := by
  have sorted : tree.Sorted := sorted_of_ordered fun path id operator level left right hp =>
    (h.shaped path id operator level left right hp).ordered
  exact ⟨sorted, sourceOrder_of_houses h.houses sorted⟩

theorem Tree.Follows.unique {tree other : Tree} {tokens : List Token} (h : tree.Follows tokens)
    (h' : other.Follows tokens) : other = tree := by
  obtain ⟨-, order⟩ := h.sourceOrder
  obtain ⟨sorted, order'⟩ := h'.sourceOrder
  exact eq_of_sourceOrder h'.formed h.formed (order'.trans order.symm) sorted

/-- A frame whose left operand has its shape. -/
structure Frame.Fits (nodes : List Entry) (levels : List (Option Nat)) (f : Frame) : Prop where
  formed : f.left.Everywhere (Formed nodes levels)
  level : levels[f.id]? = some (some f.level.toNat)
  graded : ∀ o l, f.left.root? = some (o, l) → f.level < l ∨ f.level = l ∧ o.leansLeft = true

namespace Frame
variable {nodes : List Entry} {levels : List (Option Nat)} {f : Frame} (upright : f.Upright)
  (fits : f.Fits nodes levels)
include upright fits

theorem formed_close {right : Tree} (hr : right.Everywhere (Formed nodes levels))
    (admits : ∀ o l, right.root? = some (o, l) → f.Admits l)
    (tight : ¬Tree.Loosened nodes f.level right) :
    (f.close right).Everywhere (Formed nodes levels) := by
  have hx := upright.not_exchanged
  refine Tree.everywhere_op.mpr ⟨⟨?_, ⟨?_, ?_⟩, ?_, fits.level⟩, fits.formed, hr⟩
  · simp [hx]
  · simpa [Tree.sourceLeft, hx] using fits.graded
  · rw [Tree.sourceRight, hx]
    exact admits
  · simp [Tree.Exchanges, Tree.sourceRight, hx, tight]

omit fits in
theorem isLeaf_eq_false_iff : f.left.isLeaf = false ↔ f.left.root?.isSome := by
  have hc := upright.complete.1
  cases h : f.left <;> simp_all [Tree.isLeaf, Tree.root?, Tree.isHole]

/-- A literal goes to the left exactly if what comes next is looser. -/
theorem formed_take {id : Nat} {n number : Number} {level : Level} (hlt : f.id < id)
    (hn : nodes[id]? = some (.literal number (some level.toNat))) :
    (f.take level (.leaf id n)).Everywhere (Formed nodes levels) := by
  have hl : Tree.Loosened nodes f.level (.leaf id n) ↔ level < f.level := by
    rw [UInt32.lt_iff_toNat_lt]
    constructor
    · rintro ⟨_, below, hm, hlt⟩
      cases hn.symm.trans hm
      exact hlt
    · exact fun hlt => ⟨number, level.toNat, hn, hlt⟩
  have hleaf := isLeaf_eq_false_iff upright
  rw [take]
  split
  next h =>
    simp only [Bool.and_eq_true, decide_eq_true_eq, Bool.not_eq_true'] at h
    obtain ⟨⟨hlevel, hc⟩, hop⟩ := h
    have hx : Tree.exchanged f.id (.leaf id n) = true := by simp [Tree.exchanged, Tree.id?, hlt]
    refine Tree.everywhere_op.mpr
      ⟨⟨fun _ => hc, ⟨?_, ?_⟩, ?_, fits.level⟩, Tree.everywhere_leaf id n, fits.formed⟩
    · simpa [Tree.sourceLeft, hx] using fits.graded
    · simp [Tree.sourceRight, hx, Tree.root?]
    · simp [Tree.Exchanges, Tree.sourceLeft, Tree.sourceRight, hx, hc, hl, hlevel, hleaf.mp hop]
  next h =>
    have hx := upright.not_exchanged
    refine Tree.everywhere_op.mpr
      ⟨⟨?_, ⟨?_, ?_⟩, ?_, fits.level⟩, fits.formed, Tree.everywhere_leaf id n⟩
    · simp [hx]
    · simpa [Tree.sourceLeft, hx] using fits.graded
    · simp [Tree.sourceRight, hx, Tree.root?]
    · rw [Tree.Exchanges, Tree.sourceLeft, Tree.sourceRight, hx]
      simp only [Bool.false_eq_true, if_false, false_iff]
      rw [hl, ← hleaf]
      simp only [Bool.and_eq_true, decide_eq_true_eq, Bool.not_eq_true'] at h
      tauto

end Frame

theorem root?_settle_cons (level : Level) (operand : Tree) (f : Frame) (frames : List Frame) :
    (settle level operand (f :: frames)).root? = some (f.operator, f.level) := by
  cases frames with
  | nil =>
    rw [settle, Frame.take]
    split <;> rfl
  | cons g frames => rfl

theorem not_loosened_of_root? {nodes : List Entry} {level : Level} {tree : Tree}
    (h : tree.root?.isSome) : ¬Tree.Loosened nodes level tree := by
  cases tree <;> simp_all [Tree.root?, Tree.Loosened]

section Spine
variable {nodes : List Entry} {levels : List (Option Nat)} {frames : List Frame}
  (stacked : Stacked frames) (upright : ∀ f ∈ frames, f.Upright)
  (fits : ∀ f ∈ frames, f.Fits nodes levels)
include stacked upright fits

theorem formed_assemble {rest : Tree} (hr : rest.Everywhere (Formed nodes levels))
    (hroot : rest.root? = none) (tight : ∀ level, ¬Tree.Loosened nodes level rest) :
    (assemble frames rest).Everywhere (Formed nodes levels) := by
  induction frames with
  | nil => exact hr
  | cons f frames ih =>
    obtain ⟨hf, stacked⟩ := List.pairwise_cons.mp stacked
    have ih := ih stacked (fun g hg => upright g (by simp [hg])) fun g hg => fits g (by simp [hg])
    rw [assemble_cons]
    refine Frame.formed_close (upright f (by simp)) (fits f (by simp)) ih ?_ ?_
    · cases frames with
      | nil => simp [hroot]
      | cons g frames =>
        intro o l h
        cases h
        exact hf g (by simp)
    · cases frames with
      | nil => exact tight _
      | cons g frames => exact not_loosened_of_root? rfl

theorem formed_settle {id : Nat} {n number : Number} {level : Level}
    (below : ∀ f ∈ frames, f.id < id)
    (hn : nodes[id]? = some (.literal number (some level.toNat))) :
    (settle level (.leaf id n) frames).Everywhere (Formed nodes levels) := by
  induction frames with
  | nil => exact Tree.everywhere_leaf id n
  | cons f frames ih =>
    obtain ⟨hf, stacked⟩ := List.pairwise_cons.mp stacked
    have ih := ih stacked (fun g hg => upright g (by simp [hg])) (fun g hg => fits g (by simp [hg]))
      fun g hg => below g (by simp [hg])
    cases frames with
    | nil => exact Frame.formed_take (upright f (by simp)) (fits f (by simp)) (below f (by simp)) hn
    | cons g frames =>
      refine Frame.formed_close (upright f (by simp)) (fits f (by simp)) ih ?_ ?_
      · intro o l h
        rw [root?_settle_cons] at h
        cases h
        exact hf g (by simp)
      · exact not_loosened_of_root? (by rw [root?_settle_cons]; rfl)

omit upright fits in
/-- What a new operation takes as its left operand lies above it, or leans left beside it. -/
theorem graded_settle {level : Level} {operand : Tree} (hroot : operand.root? = none) :
    ∀ o l, (settle level operand (closed level frames)).root? = some (o, l) →
      level < l ∨ level = l ∧ o.leansLeft = true := by
  intro o l h
  cases hc : closed level frames with
  | nil => simp [hc, settle, hroot] at h
  | cons g lower =>
    rw [hc, root?_settle_cons] at h
    cases h
    have hg := (stacked.closed_eq hc).1
    simp only [Frame.Admits, not_or, UInt32.not_lt, not_and, Bool.not_eq_false] at hg
    obtain ⟨hle, hlean⟩ := hg
    by_cases heq : g.level = level
    · exact .inr ⟨heq.symm, hlean heq⟩
    · exact .inl (UInt32.lt_of_le_of_ne hle (Ne.symm heq))

end Spine

namespace Stack

/-- The nodes and levels of the tokens that a stack has taken come first, those to come are behind. -/
def Listed (nodes last : List Entry) (levels : List (Option Nat)) (s : Stack) (groups : Nat)
    (rest : List Token) : Prop :=
  ∃ done ranks, nodes = done ++ entries s.phase groups rest ++ last ∧
    levels = ranks ++ Language.levels s.phase groups rest ∧ ranks.length = s.made ∧
    s.Lists (done.map Entry.content)

/-- How a stack stands between the tokens that it has taken and those to come, whose nodes and levels
are known beforehand. -/
structure Shaping (nodes last : List Entry) (levels : List (Option Nat)) (s : Stack) (groups : Nat)
    (rest : List Token) : Prop where
  listed : Listed nodes last levels s groups rest
  stacked : Stacked s.frames
  leveled : s.Leveled groups
  read : ∀ id n, s.awaiting = .operator (.leaf id n) →
    nodes[id]? = some (.literal n (behind groups rest))
  fits : ∀ f ∈ s.frames, f.Fits nodes levels

section Step
variable {nodes last : List Entry} {levels : List (Option Nat)} {s s' : Stack} {groups : Nat}
  {token : Token} {rest : List Token} (step : Step s token s')
include step

theorem listed_step (h : Listed nodes last levels s groups (token :: rest)) :
    Listed nodes last levels s' (groupsAfter groups token.kind) rest := by
  obtain ⟨done, ranks, hn, hl, ranked, lists⟩ := h
  have lists' := lists_step lists groups rest step
  refine ⟨done ++ s.phase.adds groups token rest,
    ranks ++ (s.phase.adds groups token rest).map (Entry.level? groups), ?_, ?_, ?_, ?_⟩
  · rw [hn, entries, phase_step step]
    simp
  · rw [hl, Language.levels, phase_step step]
    simp
  · rw [lists'.made, List.length_append, ranked, lists.made]
    simp
  · rwa [List.map_append]

theorem read_step (h : s.Shaping nodes last levels groups (token :: rest)) :
    ∀ id n, s'.awaiting = .operator (.leaf id n) →
      nodes[id]? = some (.literal n (behind (groupsAfter groups token.kind) rest)) := by
  intro id n ha'
  cases step with
  | opened | negated => simp [openGroup] at ha'
  | signed => simp at ha'
  | operated => simp [operate] at ha'
  | closed operand ha hk =>
    have hr := h.read id n ha'
    rw [behind_closeParen hk] at hr
    rw [hk]
    exact hr
  | literal negative number ha hk hr =>
    obtain ⟨done, -, hn, -, -, lists⟩ := h.listed
    have hg : groupsAfter groups token.kind = groups := by
      cases hkind : token.kind <;> simp_all [groupsAfter, Token.Kind.isLiteral]
    have made : s.made = done.length := by simpa using lists.made
    cases ha'
    rw [hn, hg, entries, adds_literal ha hk hr, made]
    simp

omit step in
theorem fits_operate (stacked : Stacked s.frames) (fits : ∀ f ∈ s.frames, f.Fits nodes levels)
    {operator : Operator} {tier : Tier} {id : Nat} {n : Number}
    (hl : levels[s.made]? = some (some (Level.of s.depth tier).toNat))
    (hs : (settle (.of s.depth tier) (.leaf id n) (closed (.of s.depth tier) s.frames)).Everywhere
      (Formed nodes levels)) :
    ∀ f ∈ (s.operate operator tier (.leaf id n)).frames, f.Fits nodes levels := by
  intro f hf
  rcases List.mem_append.mp hf with hf | hf
  · exact fits f (mem_of_mem_kept hf)
  · obtain rfl := List.mem_singleton.mp hf
    exact ⟨hs, hl, graded_settle stacked rfl⟩

theorem fits_step (h : s.Shaping nodes last levels groups (token :: rest)) :
    ∀ f ∈ s'.frames, f.Fits nodes levels := by
  obtain ⟨done, ranks, -, hl, ranked, lists⟩ := h.listed
  have small : s.depth.toNat < maxGroups := h.leveled.depth ▸ h.leveled.few
  cases step with
  | opened | signed | literal | closed => exact h.fits
  | negated ha hk =>
    have hc := closed_eq_nil (h.leveled.admits (by simp [ha]))
    refine fits_operate (s := { s with made := s.made + 1 }) h.stacked h.fits ?_ ?_
    · rw [hl, Level.toNat_of small, h.leveled.depth, ← ranked]
      simp [Language.levels, phase, ha, hk, Phase.adds, Entry.level?]
    · change (settle _ _ (closed (.of s.depth .exponential) s.frames)).Everywhere _
      rw [hc]
      exact Tree.everywhere_leaf _ _
  | operated operand operator ha hk =>
    have order : spineOrder s.frames ++ operand.sourceOrder = (done.map Entry.content).zipIdx := by
      simpa [pending, ha] using lists.order
    obtain ⟨id, n, rfl, -, below⟩ := leaf_of_order (lists.operand operand ha) order
    have hr := h.read id n ha
    have hlevel : levelAt groups operator = (Level.of s.depth operator.tier).toNat := by
      rw [Level.toNat_of small, h.leveled.depth]
      rfl
    rw [behind_operator hk, hlevel] at hr
    refine fits_operate h.stacked h.fits ?_ ?_
    · rw [hl, ← hlevel, ← ranked]
      simp [Language.levels, phase, ha, hk, Phase.adds, Entry.level?]
    apply formed_settle (h.stacked.sublist (List.dropWhile_sublist _)) _ _ _ hr
    · exact fun f hf => lists.upright f (mem_of_mem_closed hf)
    · exact fun f hf => h.fits f (mem_of_mem_closed hf)
    · exact fun f hf => below f (mem_of_mem_closed hf)

theorem shaping_step (few : groupsAfter groups token.kind < maxGroups)
    (h : s.Shaping nodes last levels groups (token :: rest)) :
    s'.Shaping nodes last levels (groupsAfter groups token.kind) rest where
  listed := listed_step step h.listed
  stacked := stacked_step h.stacked step
  leveled := leveled_step h.leveled few step
  read := read_step step h
  fits := fits_step step h

end Step

theorem shaping_takeAll {nodes last : List Entry} {levels : List (Option Nat)} {s s' : Stack}
    {groups : Nat} {tokens : List Token} (few : groups + opens tokens < maxGroups)
    (h : s.Shaping nodes last levels groups tokens) (ht : s.takeAll tokens = some s') :
    ∃ groups, s'.Shaping nodes last levels groups [] := by
  induction tokens generalizing s groups with
  | nil =>
    obtain rfl := Option.some.inj ht
    exact ⟨groups, h⟩
  | cons token rest ih =>
    obtain ⟨s₁, step, ht⟩ := step_of_takeAll_cons ht
    have hle := groupsAfter_add_opens_le groups token rest
    have few' : groupsAfter groups token.kind + opens rest < maxGroups := by omega
    exact ih few' (shaping_step step (by omega) h) ht

theorem shaping_start (tokens : List Token) (last : List Entry) :
    start.Shaping (entries (.operand false) 0 tokens ++ last) last
      (Language.levels (.operand false) 0 tokens) 0 tokens where
  listed := ⟨[], [], rfl, rfl, rfl, lists_start⟩
  stacked := stacked_start
  leveled := leveled_start
  read := fun _ _ ha => Awaiting.noConfusion ha
  fits := fun _ hf => absurd hf List.not_mem_nil

/-- Nothing comes behind the last operand, so that it does not go to the left. -/
theorem formed_finish {nodes : List Entry} {levels : List (Option Nat)} {s : Stack} {groups : Nat}
    {tree : Tree} (h : s.Shaping nodes (s.phase.lacks) levels groups [])
    (hf : s.finish = some tree) : tree.Everywhere (Formed nodes levels) := by
  obtain ⟨done, -, hn, -, -, lists⟩ := h.listed
  have tight : ∀ id n, (∀ number below, nodes[id]? ≠ some (.literal number (some below))) →
      (assemble s.frames (.leaf id n)).Everywhere (Formed nodes levels) := by
    intro id n hid
    refine formed_assemble h.stacked lists.upright h.fits (Tree.everywhere_leaf id n) rfl ?_
    rintro level ⟨number, below, hm, -⟩
    exact hid number below hm
  cases ha : s.awaiting with
  | operand =>
    simp only [finish, ha] at hf
    split at hf
    · contradiction
    obtain rfl := Option.some.inj hf
    apply tight
    intro number below
    have made : s.made = done.length := by simpa using lists.made
    rw [hn, made, entries, List.append_nil]
    simp [phase, ha, Phase.lacks]
  | signed negative => simp [finish, ha] at hf
  | operator operand =>
    simp only [finish, ha] at hf
    obtain rfl := Option.some.inj hf
    have order : spineOrder s.frames ++ operand.sourceOrder = (done.map Entry.content).zipIdx := by
      simpa [pending, ha] using lists.order
    obtain ⟨id, n, rfl, -, -⟩ := leaf_of_order (lists.operand operand ha) order
    apply tight
    intro number below
    rw [h.read id n ha]
    simp [behind]

end Stack

/-- A parsed tree is the one tree of its nodes that has the order and the levels of its tokens. -/
theorem shape_of_parse (source : String) (symbols : Numeral.Symbols) (tree : Tree)
    (few : opens (Scanner.ofSource source symbols).scan.1 < maxGroups)
    (h : (parse source symbols).tree = .ok tree) :
    tree.Follows (Scanner.ofSource source symbols).scan.1 ∧
      ∀ other : Tree, other.Follows (Scanner.ofSource source symbols).scan.1 → other = tree := by
  obtain ⟨complete, order⟩ := sourceOrder_of_parse h
  obtain ⟨final, s, -, ht, hf⟩ := parse_eq_ok_iff.mp h
  have hr : (Phase.operand false).run _ = some s.phase := Stack.phase_takeAll ht
  obtain ⟨groups, shaping⟩ := Stack.shaping_takeAll (by rwa [Nat.zero_add])
    (Stack.shaping_start _ s.phase.lacks) ht
  have formed := Stack.formed_finish shaping hf
  have sides := (Tree.sorted_of_sourceOrder order).sides
  have follows : tree.Follows (Scanner.ofSource source symbols).scan.1 := by
    refine ⟨complete, Tree.houses_of_sourceOrder order, fun path id operator level left right hp =>
      (formed path id operator level left right hp).level, ?_⟩
    intro path id operator level left right hp
    obtain ⟨before, behind⟩ := sides path id operator level left right hp
    obtain ⟨commutes, graded, exchanges, -⟩ := formed path id operator level left right hp
    rw [arena, hr]
    exact ⟨⟨commutes, before, behind⟩, graded, exchanges⟩
  exact ⟨follows, fun other other_follows => follows.unique other_follows⟩

/-- The power is tighter than the product, which has taken its later factor on the left. -/
theorem shape_of_power_product_sum :
    let tree : Tree := .op 5 .add 0
      (.op 3 .multiply 1 (.leaf 4 (.integer 3))
        (.op 1 .power 2 (.leaf 0 (.integer 2)) (.leaf 2 (.integer 2))))
      (.leaf 6 (.integer 1))
    let tokens := (Scanner.ofSource "2^2*3+1" .standard).scan.1
    opens tokens < maxGroups ∧ (parse "2^2*3+1" .standard).tree = .ok tree ∧
      tree.Follows tokens ∧ ∀ other : Tree, other.Follows tokens → other = tree := by
  intro tree tokens
  have few : opens tokens < maxGroups := by decide +kernel
  have h : (parse "2^2*3+1" .standard).tree = .ok tree := eq_ok_of_toOption (by decide +kernel)
  exact ⟨few, h, shape_of_parse _ _ _ few h⟩

end Reckoner

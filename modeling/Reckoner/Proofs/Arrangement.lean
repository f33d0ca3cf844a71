import Mathlib.Data.List.Sort
import Reckoner.Proofs.Nodes

/-! Trees arranged by the order and the levels of their nodes. Main statement: nodes whose order and
levels are given can be arranged in one way only. -/
namespace Reckoner
open Reckoner.Language

namespace Tree

def root? : Tree → Option (Operator × Level)
  | op _ operator level .. => some (operator, level)
  | _ => none

/-- The operands of an operation as the source has them. -/
def sourceLeft (id : Nat) (left right : Tree) : Tree :=
  if exchanged id left then right else left

def sourceRight (id : Nat) (left right : Tree) : Tree :=
  if exchanged id left then left else right

structure Ordered (id : Nat) (operator : Operator) (left right : Tree) : Prop where
  commutes : exchanged id left = true → operator.commutes = true
  before : ∀ i ∈ (sourceLeft id left right).ids, i < id
  behind : ∀ i ∈ (sourceRight id left right).ids, id < i

structure Graded (id : Nat) (level : Level) (operator : Operator) (left right : Tree) : Prop where
  before : ∀ o l, (sourceLeft id left right).root? = some (o, l) →
    level < l ∨ level = l ∧ o.leansLeft = true
  behind : ∀ o l, (sourceRight id left right).root? = some (o, l) →
    level < l ∨ level = l ∧ operator.leansLeft = false

/-- A literal of the source with an operator of a lower level next behind it. -/
def Loosened (nodes : List Entry) (level : Level) : Tree → Prop
  | leaf id _ => ∃ number below,
    nodes[id]? = some (.literal number (some below)) ∧ below < level.toNat
  | _ => False

def Exchanges (nodes : List Entry) (id : Nat) (level : Level) (operator : Operator)
    (left right : Tree) : Prop :=
  exchanged id left = true ↔ operator.commutes = true ∧
    (sourceLeft id left right).root?.isSome ∧ Loosened nodes level (sourceRight id left right)

structure Shaped (nodes : List Entry) (id : Nat) (operator : Operator) (level : Level)
    (left right : Tree) : Prop where
  ordered : Ordered id operator left right
  graded : Graded id level operator left right
  exchanges : Exchanges nodes id level operator left right

/-- All operations of the tree are like this. -/
def Everywhere (P : Nat → Operator → Level → Tree → Tree → Prop) (tree : Tree) : Prop :=
  ∀ path id operator level left right,
    tree.subtree path = op id operator level left right → P id operator level left right

section Everywhere
variable {P : Nat → Operator → Level → Tree → Tree → Prop}

theorem everywhere_leaf (id : Nat) (n : Number) : (leaf id n).Everywhere P := by
  intro path
  cases path <;> simp [subtree]

theorem everywhere_op {id : Nat} {operator : Operator} {level : Level} {left right : Tree} :
    (op id operator level left right).Everywhere P ↔
      P id operator level left right ∧ left.Everywhere P ∧ right.Everywhere P := by
  constructor
  · intro h
    exact ⟨h [] _ _ _ _ _ rfl, fun path => h (.left :: path), fun path => h (.right :: path)⟩
  · rintro ⟨here, hl, hr⟩ path i o l a b hp
    match path with
    | [] =>
      cases hp
      exact here
    | .left :: path => exact hl path i o l a b hp
    | .right :: path => exact hr path i o l a b hp

end Everywhere

theorem sourceOrder_op (id : Nat) (operator : Operator) (level : Level) (left right : Tree) :
    (op id operator level left right).sourceOrder = (sourceLeft id left right).sourceOrder ++
      (.operation operator, id) :: (sourceRight id left right).sourceOrder := by
  rw [sourceOrder, sourceLeft, sourceRight]
  split <;> rfl

theorem sourceOrder_subtree (tree : Tree) (path : List Side) :
    (tree.subtree path).sourceOrder.Sublist tree.sourceOrder := by
  induction path generalizing tree with
  | nil => simp
  | cons side path ih =>
    cases tree with
    | hole | leaf => simp [subtree, sourceOrder]
    | op id operator level left right =>
      rw [sourceOrder]
      cases side with
      | left =>
        refine (ih left).trans ?_
        split
        · exact (List.sublist_cons_self _ _).trans (List.sublist_append_right _ _)
        · exact List.sublist_append_left _ _
      | right =>
        refine (ih right).trans ?_
        split
        · exact List.sublist_append_left _ _
        · exact (List.sublist_cons_self _ _).trans (List.sublist_append_right _ _)

theorem snd_mem_ids {tree : Tree} {x : Content × Nat} (mem : x ∈ tree.sourceOrder) :
    x.2 ∈ tree.ids :=
  (sourceOrder_perm tree).mem_iff.mp (List.mem_map_of_mem mem)

/-- The nodes are numbered in the order of the source. -/
def Sorted (tree : Tree) : Prop :=
  (tree.sourceOrder.map Prod.snd).Pairwise (· < ·)

theorem sorted_op {id : Nat} {operator : Operator} {level : Level} {left right : Tree} :
    (op id operator level left right).Sorted ↔
      (sourceLeft id left right).Sorted ∧ (sourceRight id left right).Sorted ∧
        (∀ i ∈ (sourceLeft id left right).ids, i < id) ∧
        ∀ i ∈ (sourceRight id left right).ids, id < i := by
  have before : ∀ i, i ∈ (sourceLeft id left right).sourceOrder.map Prod.snd ↔
      i ∈ (sourceLeft id left right).ids := fun _ => (sourceOrder_perm _).mem_iff
  have behind : ∀ i, i ∈ (sourceRight id left right).sourceOrder.map Prod.snd ↔
      i ∈ (sourceRight id left right).ids := fun _ => (sourceOrder_perm _).mem_iff
  simp only [← before, ← behind]
  rw [Sorted, sourceOrder_op, List.map_append, List.map_cons, List.pairwise_append,
    List.pairwise_cons]
  constructor
  · rintro ⟨hl, ⟨hid, hr⟩, across⟩
    exact ⟨hl, hr, fun i hi => across i hi id List.mem_cons_self, hid⟩
  · rintro ⟨hl, hr, below, above⟩
    refine ⟨hl, ⟨above, hr⟩, fun i hi k hk => ?_⟩
    rcases List.mem_cons.mp hk with rfl | hk
    · exact below i hi
    · exact Nat.lt_trans (below i hi) (above k hk)

theorem sorted_of_sourceOrder {tree : Tree} {contents : List Content}
    (order : tree.sourceOrder = contents.zipIdx) : tree.Sorted := by
  rw [Sorted, order]
  exact increasing_zipIdx contents

theorem Sorted.sides {tree : Tree} (sorted : tree.Sorted) :
    tree.Everywhere fun id _ _ left right =>
      (∀ i ∈ (sourceLeft id left right).ids, i < id) ∧
        ∀ i ∈ (sourceRight id left right).ids, id < i := by
  intro path id operator level left right hp
  have part : (tree.subtree path).Sorted :=
    sorted.sublist ((sourceOrder_subtree tree path).map Prod.snd)
  rw [hp] at part
  exact (sorted_op.mp part).2.2

/-- Recursion in the order of the source: over an operation's operands as the source has them. -/
@[elab_as_elim]
theorem sourceInduction {motive : Tree → Prop} (hole : motive hole)
    (leaf : ∀ id n, motive (leaf id n))
    (op : ∀ id operator level left right, motive (sourceLeft id left right) →
      motive (sourceRight id left right) → motive (op id operator level left right))
    (tree : Tree) : motive tree := by
  induction tree with
  | hole => exact hole
  | leaf id n => exact leaf id n
  | op id operator level left right ihl ihr =>
    apply op
    · rw [sourceLeft]
      split
      · exact ihr
      · exact ihl
    · rw [sourceRight]
      split
      · exact ihl
      · exact ihr

theorem everywhere_source {P : Nat → Operator → Level → Tree → Tree → Prop} {id : Nat}
    {operator : Operator} {level : Level} {left right : Tree}
    (h : (op id operator level left right).Everywhere P) :
    P id operator level left right ∧ (sourceLeft id left right).Everywhere P ∧
      (sourceRight id left right).Everywhere P := by
  obtain ⟨here, hl, hr⟩ := everywhere_op.mp h
  refine ⟨here, ?_, ?_⟩
  · rw [sourceLeft]
    split
    · exact hr
    · exact hl
  · rw [sourceRight]
    split
    · exact hl
    · exact hr

theorem exists_root_of_mem {tree : Tree} {operator : Operator} {id : Nat}
    (mem : (.operation operator, id) ∈ tree.sourceOrder) : ∃ o l, tree.root? = some (o, l) := by
  cases tree with
  | hole => exact absurd mem List.not_mem_nil
  | leaf i n => simp [sourceOrder] at mem
  | op i o l left right => exact ⟨o, l, rfl⟩

theorem sorted_of_ordered {tree : Tree}
    (ordered : tree.Everywhere fun id operator _ left right => Ordered id operator left right) :
    tree.Sorted := by
  induction tree using sourceInduction with
  | hole => exact .nil
  | leaf => exact List.pairwise_singleton _ _
  | op id operator level left right ihl ihr =>
    obtain ⟨here, hl, hr⟩ := everywhere_source ordered
    exact sorted_op.mpr ⟨ihl hl, ihr hr, here.before, here.behind⟩

theorem mem_sourceOrder_of_houses {tree : Tree} {contents : List Content}
    (houses : tree.Houses contents) (x : Content × Nat) :
    x ∈ tree.sourceOrder ↔ x ∈ contents.zipIdx := by
  obtain ⟨content, id⟩ := x
  rw [List.mem_zipIdx_iff_getElem?, mem_sourceOrder_iff]
  constructor
  · rintro ⟨path, hp⟩
    exact houses.listed path content id hp
  · intro h
    obtain ⟨path, hp, -⟩ := houses.reached id (List.getElem?_eq_some_iff.mp h).1
    rw [id?_eq_node?] at hp
    obtain ⟨⟨content', id'⟩, hn, rfl⟩ := Option.map_eq_some_iff.mp hp
    obtain rfl := Option.some.inj ((houses.listed path _ _ hn).symm.trans h)
    exact ⟨path, hn⟩

theorem sourceOrder_of_houses {tree : Tree} {contents : List Content}
    (houses : tree.Houses contents) (sorted : tree.Sorted) : tree.sourceOrder = contents.zipIdx := by
  have irrefl : Std.Irrefl fun a b : Content × Nat => a.2 < b.2 := ⟨fun a => Nat.lt_irrefl a.2⟩
  have antisymm : Std.Antisymm fun a b : Content × Nat => a.2 < b.2 :=
    ⟨fun _ _ lt gt => absurd gt (Nat.lt_asymm lt)⟩
  exact (List.pairwise_map.mp sorted).eq_of_mem_iff
    (List.pairwise_map.mp (increasing_zipIdx contents)) (mem_sourceOrder_of_houses houses)

end Tree

/-- What holds of an operation from the moment it gets its right operand. -/
structure Formed (nodes : List Entry) (levels : List (Option Nat)) (id : Nat) (operator : Operator)
    (level : Level) (left right : Tree) : Prop where
  commutes : Tree.exchanged id left = true → operator.commutes = true
  graded : Tree.Graded id level operator left right
  exchanges : Tree.Exchanges nodes id level operator left right
  level : levels[id]? = some (some level.toNat)

namespace Tree

theorem level_unique {levels : List (Option Nat)} {id : Nat} {level level' : Level}
    (h : levels[id]? = some (some level.toNat)) (h' : levels[id]? = some (some level'.toNat)) :
    level = level' :=
  UInt32.toNat_inj.mp (Option.some.inj (Option.some.inj (h.symm.trans h')))

theorem mem_sourceOrder_source {id : Nat} {operator : Operator} {level : Level} {left right : Tree}
    {x : Content × Nat} : x ∈ (op id operator level left right).sourceOrder ↔
      x ∈ (sourceLeft id left right).sourceOrder ∨ x = (.operation operator, id) ∨
        x ∈ (sourceRight id left right).sourceOrder := by
  rw [sourceOrder_op, List.mem_append, List.mem_cons]

theorem mem_root {id : Nat} {operator : Operator} {level : Level} {left right : Tree} :
    (.operation operator, id) ∈ (op id operator level left right).sourceOrder :=
  mem_sourceOrder_source.mpr (.inr (.inl rfl))

section Formed
variable {nodes : List Entry} {levels : List (Option Nat)} {tree other : Tree}

theorem le_of_graded {level l : Level} {P : Prop} (h : level < l ∨ level = l ∧ P) : level ≤ l := by
  rcases h with lt | ⟨rfl, -⟩
  · exact UInt32.le_of_lt lt
  · exact UInt32.le_refl _

theorem root_le (formed : tree.Everywhere (Formed nodes levels)) {o operator : Operator}
    {l level : Level} {id : Nat} (root : tree.root? = some (o, l))
    (mem : (.operation operator, id) ∈ tree.sourceOrder)
    (rank : levels[id]? = some (some level.toNat)) : l ≤ level := by
  induction tree using sourceInduction generalizing o l with
  | hole => contradiction
  | leaf => contradiction
  | op i operator' level' left right ihl ihr =>
    cases root
    obtain ⟨here, hl, hr⟩ := everywhere_source formed
    rcases mem_sourceOrder_source.mp mem with mem | same | mem
    · obtain ⟨o, l, root⟩ := exists_root_of_mem mem
      exact UInt32.le_trans (le_of_graded (here.graded.before o l root)) (ihl hl root mem)
    · cases same
      rw [level_unique here.level rank]
      exact UInt32.le_refl _
    · obtain ⟨o, l, root⟩ := exists_root_of_mem mem
      exact UInt32.le_trans (le_of_graded (here.graded.behind o l root)) (ihr hr root mem)

/-- An operand with an operation of the level above it has one of that level as its root. -/
theorem exists_root_beside (formed : tree.Everywhere (Formed nodes levels)) {level : Level}
    {P : Operator → Prop}
    (graded : ∀ o l, tree.root? = some (o, l) → level < l ∨ level = l ∧ P o) {operator : Operator}
    {id : Nat} (mem : (.operation operator, id) ∈ tree.sourceOrder)
    (rank : levels[id]? = some (some level.toNat)) : ∃ o, tree.root? = some (o, level) ∧ P o := by
  obtain ⟨o, l, root⟩ := exists_root_of_mem mem
  rcases graded o l root with lt | ⟨rfl, beside⟩
  · exact absurd (root_le formed root mem rank) (UInt32.not_le.mpr lt)
  · exact ⟨o, root, beside⟩

/-- Where an operation that leans left is the root, so do all of its level. -/
theorem leansLeft_of_root (formed : tree.Everywhere (Formed nodes levels)) {o operator : Operator}
    {l : Level} {id : Nat} (root : tree.root? = some (o, l)) (leans : o.leansLeft = true)
    (mem : (.operation operator, id) ∈ tree.sourceOrder)
    (rank : levels[id]? = some (some l.toNat)) : operator.leansLeft = true := by
  induction tree using sourceInduction generalizing o with
  | hole => contradiction
  | leaf => contradiction
  | op i operator' level' left right ihl ihr =>
    cases root
    obtain ⟨here, hl, hr⟩ := everywhere_source formed
    rcases mem_sourceOrder_source.mp mem with mem | same | mem
    · obtain ⟨o, root, leans⟩ := exists_root_beside hl here.graded.before mem rank
      exact ihl hl root leans mem
    · cases same
      exact leans
    · obtain ⟨-, -, leans'⟩ := exists_root_beside hr here.graded.behind mem rank
      rw [leans] at leans'
      contradiction

/-- Of two operations that could be the root, the later one cannot be if the earlier one can. -/
theorem root_not_lt {id id' : Nat} {operator operator' : Operator} {level level' : Level}
    {left right left' right' : Tree}
    (formed : (op id operator level left right).Everywhere (Formed nodes levels))
    (formed' : (op id' operator' level' left' right').Everywhere (Formed nodes levels))
    (same : (op id operator level left right).sourceOrder =
      (op id' operator' level' left' right').sourceOrder)
    (before : ∀ i ∈ (sourceLeft id left right).ids, i < id)
    (behind : ∀ i ∈ (sourceRight id' left' right').ids, id' < i) : ¬id < id' := by
  intro lt
  obtain ⟨here, -, hr⟩ := everywhere_source formed
  obtain ⟨here', hl, -⟩ := everywhere_source formed'
  have later : (.operation operator', id') ∈ (op id operator level left right).sourceOrder :=
    same ▸ mem_root
  have earlier : (.operation operator, id) ∈ (op id' operator' level' left' right').sourceOrder :=
    same ▸ mem_root
  obtain rfl : level = level' := UInt32.le_antisymm (root_le formed rfl later here'.level)
    (root_le formed' rfl earlier here.level)
  have later : (.operation operator', id') ∈ (sourceRight id left right).sourceOrder := by
    rcases mem_sourceOrder_source.mp later with mem | same | mem
    · exact absurd (before _ (snd_mem_ids mem)) (Nat.lt_asymm lt)
    · cases same
      exact absurd lt (Nat.lt_irrefl _)
    · exact mem
  have earlier : (.operation operator, id) ∈ (sourceLeft id' left' right').sourceOrder := by
    rcases mem_sourceOrder_source.mp earlier with mem | same | mem
    · exact mem
    · cases same
      exact absurd lt (Nat.lt_irrefl _)
    · exact absurd (behind _ (snd_mem_ids mem)) (Nat.lt_asymm lt)
  -- the operation that comes first leans right, since the other one is below it at its level
  obtain ⟨-, -, right⟩ := exists_root_beside hr here.graded.behind later here'.level
  -- and it leans left, since it is below the other one
  obtain ⟨o, root, leans⟩ := exists_root_beside hl here'.graded.before earlier here.level
  have left := leansLeft_of_root hl root leans earlier here.level
  rw [right] at left
  contradiction

theorem exchanged_eq {id : Nat} {operator : Operator} {level : Level}
    {left right left' right' : Tree}
    (h : Exchanges nodes id level operator left right)
    (h' : Exchanges nodes id level operator left' right')
    (before : sourceLeft id left right = sourceLeft id left' right')
    (behind : sourceRight id left right = sourceRight id left' right') :
    left = left' ∧ right = right' := by
  rw [Exchanges, before, behind] at h
  have same : exchanged id left = exchanged id left' := Bool.eq_iff_iff.mpr (h.trans h'.symm)
  rw [sourceLeft, sourceLeft, same] at before
  rw [sourceRight, sourceRight, same] at behind
  split at before
  next x => exact ⟨by rwa [if_pos x, if_pos x] at behind, before⟩
  next x => exact ⟨before, by rwa [if_neg x, if_neg x] at behind⟩

/-- The order of the nodes and the levels of the operations leave one tree. -/
theorem eq_of_sourceOrder (formed : tree.Everywhere (Formed nodes levels))
    (formed' : other.Everywhere (Formed nodes levels))
    (same : tree.sourceOrder = other.sourceOrder) (sorted : tree.Sorted) : tree = other := by
  induction tree using sourceInduction generalizing other with
  | hole =>
    cases other with
    | hole => rfl
    | leaf => contradiction
    | op => exact absurd (same ▸ mem_root) List.not_mem_nil
  | leaf id n =>
    cases other with
    | hole => contradiction
    | leaf =>
      cases same
      rfl
    | op =>
      obtain ⟨_, _, root⟩ := exists_root_of_mem (same ▸ mem_root)
      contradiction
  | op id operator level left right ihl ihr =>
    obtain ⟨_, _, root⟩ := exists_root_of_mem (same ▸ mem_root)
    cases other with
    | hole | leaf => contradiction
    | op id' operator' level' left' right' =>
      obtain ⟨sortl, sortr, before, behind⟩ := sorted_op.mp sorted
      have sorted' := sorted
      rw [Sorted, same] at sorted'
      obtain ⟨-, -, before', behind'⟩ := sorted_op.mp sorted'
      have le := root_not_lt formed formed' same before behind'
      have ge := root_not_lt formed' formed same.symm before' behind
      obtain rfl : id = id' := Nat.le_antisymm (Nat.le_of_not_lt ge) (Nat.le_of_not_lt le)
      rw [sourceOrder_op, sourceOrder_op, List.append_cons_inj_of_notMem
        (fun mem => Nat.lt_irrefl _ (before _ (snd_mem_ids mem)))
        fun mem => Nat.lt_irrefl _ (behind _ (snd_mem_ids mem))] at same
      obtain ⟨samel, root, samer⟩ := same
      cases root
      obtain ⟨here, hl, hr⟩ := everywhere_source formed
      obtain ⟨here', hl', hr'⟩ := everywhere_source formed'
      obtain rfl := level_unique here.level here'.level
      obtain ⟨rfl, rfl⟩ := exchanged_eq here.exchanges here'.exchanges (ihl hl hl' samel sortl)
        (ihr hr hr' samer sortr)
      rfl

end Formed
end Tree
end Reckoner

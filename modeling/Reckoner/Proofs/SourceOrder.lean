import Mathlib.Logic.ExistsUnique
import Mathlib.Tactic.Tauto
import Reckoner.Proofs.Spine

/-! Trees in the order of the source. Nodes are numbered as they are made, so an operation whose left
operand bears the higher number has its operands exchanged. Main statement: what a spine closes to
lists its nodes in the order in which the frames and the operand list them. -/
namespace Reckoner

inductive Side where
  | left | right
  deriving DecidableEq, Repr

/-- What a node holds apart from its operands. -/
inductive Content where
  | number (n : Number)
  | operation (operator : Operator)
  deriving DecidableEq, Repr

namespace Tree

def node? : Tree → Option (Content × Nat)
  | hole => none
  | leaf id n => some (.number n, id)
  | op id operator .. => some (.operation operator, id)

/-- The part of the tree at the end of a path; a hole where the path leaves the tree. -/
def subtree : Tree → List Side → Tree
  | tree, [] => tree
  | op _ _ _ left _, .left :: path => left.subtree path
  | op _ _ _ _ right, .right :: path => right.subtree path
  | _, _ :: _ => hole

/-- Whether an operation with this number and left operand has its operands exchanged. -/
def exchanged (id : Nat) (left : Tree) : Bool :=
  left.id?.any (id < ·)

/-- The nodes from left to right, exchanged operands put back in their places. -/
def sourceOrder : Tree → List (Content × Nat)
  | hole => []
  | leaf id n => [(.number n, id)]
  | op id operator _ left right =>
    if exchanged id left then right.sourceOrder ++ (.operation operator, id) :: left.sourceOrder
    else left.sourceOrder ++ (.operation operator, id) :: right.sourceOrder

/-- The operations that lack an operand, and on which side. -/
def lacking : Tree → List (Nat × Side)
  | op id _ _ left right =>
    (if left.isHole then [(id, .left)] else left.lacking) ++
      if right.isHole then [(id, .right)] else right.lacking
  | _ => []

def Complete (tree : Tree) : Prop :=
  tree.isHole = false ∧ tree.lacking = []

/-- Every node of the tree is in the list at the place of its number, and every place of the list
is reached in the tree by exactly one path. -/
structure Houses (tree : Tree) (contents : List Content) : Prop where
  reached : ∀ id < contents.length, ∃! path, (tree.subtree path).id? = some id
  listed : ∀ path content id, (tree.subtree path).node? = some (content, id) →
    contents[id]? = some content

theorem id?_eq_node? (tree : Tree) : tree.id? = tree.node?.map Prod.snd := by
  cases tree <;> rfl

@[simp] theorem subtree_nil (tree : Tree) : tree.subtree [] = tree := by
  cases tree <;> rfl

theorem complete_leaf (id : Nat) (n : Number) : (leaf id n).Complete := ⟨rfl, rfl⟩

theorem complete_op {id : Nat} {operator : Operator} {level : Level} {left right : Tree} :
    (op id operator level left right).Complete ↔ left.Complete ∧ right.Complete := by
  have hop : (op id operator level left right).isHole = false := rfl
  rw [Complete, hop, lacking, List.append_eq_nil_iff, Complete, Complete]
  cases left.isHole <;> cases right.isHole <;> simp

theorem mem_sourceOrder_op {id : Nat} {operator : Operator} {level : Level} {left right : Tree}
    {x : Content × Nat} : x ∈ (op id operator level left right).sourceOrder ↔
      x = (.operation operator, id) ∨ x ∈ left.sourceOrder ∨ x ∈ right.sourceOrder := by
  rw [sourceOrder]
  split <;> simp only [List.mem_append, List.mem_cons] <;> tauto

theorem mem_sourceOrder_iff {tree : Tree} {x : Content × Nat} :
    x ∈ tree.sourceOrder ↔ ∃ path, (tree.subtree path).node? = some x := by
  induction tree with
  | hole =>
    refine ⟨fun h => absurd h (List.not_mem_nil), fun ⟨path, h⟩ => ?_⟩
    cases path <;> simp [subtree, node?] at h
  | leaf id n =>
    constructor
    · intro h
      exact ⟨[], by rw [List.mem_singleton.mp h]; rfl⟩
    · rintro ⟨path, h⟩
      cases path with
      | nil => exact List.mem_singleton.mpr (Option.some.inj h).symm
      | cons side path => simp [subtree, node?] at h
  | op id operator level left right ihl ihr =>
    rw [mem_sourceOrder_op, ihl, ihr]
    constructor
    · rintro (rfl | ⟨path, h⟩ | ⟨path, h⟩)
      · exact ⟨[], rfl⟩
      · exact ⟨.left :: path, h⟩
      · exact ⟨.right :: path, h⟩
    · rintro ⟨path, h⟩
      match path with
      | [] => exact .inl (Option.some.inj h).symm
      | .left :: path => exact .inr (.inl ⟨path, h⟩)
      | .right :: path => exact .inr (.inr ⟨path, h⟩)

theorem sourceOrder_perm (tree : Tree) : (tree.sourceOrder.map Prod.snd).Perm tree.ids := by
  induction tree with
  | hole | leaf => exact .refl _
  | op id operator level left right ihl ihr =>
    simp only [sourceOrder, ids]
    split <;> simp only [List.map_append, List.map_cons] <;> refine List.perm_middle.trans ?_
    · exact ((ihr.append ihl).trans List.perm_append_comm).cons id
    · exact (ihl.append ihr).cons id

theorem mem_ids_of_subtree {tree : Tree} {p : List Side} {id : Nat}
    (h : (tree.subtree p).id? = some id) : id ∈ tree.ids := by
  rw [id?_eq_node?] at h
  obtain ⟨x, hx, rfl⟩ := Option.map_eq_some_iff.mp h
  exact (sourceOrder_perm tree).mem_iff.mp
    (List.mem_map_of_mem (mem_sourceOrder_iff.mpr ⟨p, hx⟩))

theorem path_unique {tree : Tree} (nodup : tree.ids.Nodup) {p q : List Side} {id : Nat}
    (hp : (tree.subtree p).id? = some id) (hq : (tree.subtree q).id? = some id) : p = q := by
  induction tree generalizing p q with
  | hole => cases p <;> simp [subtree, id?] at hp
  | leaf => cases p <;> cases q <;> simp_all [subtree, id?]
  | op root operator level left right ihl ihr =>
    obtain ⟨hroot, nodup⟩ := List.nodup_cons.mp nodup
    obtain ⟨hl, hr, disjoint⟩ := List.nodup_append.mp nodup
    rw [List.mem_append, not_or] at hroot
    match p, q with
    | [], [] => rfl
    | [], .left :: q =>
      obtain rfl := Option.some.inj hp
      exact absurd (mem_ids_of_subtree (p := q) hq) hroot.1
    | [], .right :: q =>
      obtain rfl := Option.some.inj hp
      exact absurd (mem_ids_of_subtree (p := q) hq) hroot.2
    | .left :: p, [] =>
      obtain rfl := Option.some.inj hq
      exact absurd (mem_ids_of_subtree (p := p) hp) hroot.1
    | .right :: p, [] =>
      obtain rfl := Option.some.inj hq
      exact absurd (mem_ids_of_subtree (p := p) hp) hroot.2
    | .left :: p, .left :: q => rw [ihl hl hp hq]
    | .right :: p, .right :: q => rw [ihr hr hp hq]
    | .left :: p, .right :: q =>
      exact absurd rfl (disjoint _ (mem_ids_of_subtree hp) _ (mem_ids_of_subtree hq))
    | .right :: p, .left :: q =>
      exact absurd rfl (disjoint _ (mem_ids_of_subtree hq) _ (mem_ids_of_subtree hp))

theorem increasing_zipIdx (contents : List Content) :
    (contents.zipIdx.map Prod.snd).Pairwise (· < ·) := by
  rw [List.zipIdx_map_snd]
  exact List.pairwise_lt_range'

theorem nodup_of_sourceOrder {tree : Tree} {contents : List Content}
    (h : tree.sourceOrder = contents.zipIdx) : tree.ids.Nodup := by
  rw [← (sourceOrder_perm tree).nodup_iff, h]
  exact (increasing_zipIdx contents).imp Nat.ne_of_lt

theorem houses_of_sourceOrder {tree : Tree} {contents : List Content}
    (h : tree.sourceOrder = contents.zipIdx) : tree.Houses contents := by
  have nodup := nodup_of_sourceOrder h
  constructor
  · intro id hid
    have hmem : (contents[id], id) ∈ tree.sourceOrder := by
      rw [h]
      exact List.mem_zipIdx_iff_getElem?.mpr (List.getElem?_eq_getElem hid)
    obtain ⟨path, hp⟩ := mem_sourceOrder_iff.mp hmem
    have hp : (tree.subtree path).id? = some id := by rw [id?_eq_node?, hp]; rfl
    exact ⟨path, hp, fun q hq => path_unique nodup hq hp⟩
  · intro path content id hp
    have hmem := mem_sourceOrder_iff.mpr ⟨path, hp⟩
    rw [h] at hmem
    exact List.mem_zipIdx_iff_getElem?.mp hmem

end Tree

namespace Frame

/-- A frame whose left operand is whole and was made before it. -/
structure Upright (f : Frame) : Prop where
  complete : f.left.Complete
  made : ∃ id, f.left.id? = some id ∧ id < f.id

def content (f : Frame) : Content × Nat :=
  (.operation f.operator, f.id)

theorem Upright.not_exchanged {f : Frame} (h : f.Upright) : Tree.exchanged f.id f.left = false := by
  obtain ⟨id, hid, hlt⟩ := h.made
  simp [Tree.exchanged, hid, Nat.le_of_lt hlt]

theorem Upright.sourceOrder_close {f : Frame} (h : f.Upright) (right : Tree) :
    (f.close right).sourceOrder = f.left.sourceOrder ++ f.content :: right.sourceOrder := by
  rw [close, Tree.sourceOrder, h.not_exchanged]
  rfl

/-- The operand that an exchange puts on the left is the later one. -/
theorem Upright.sourceOrder_take {f : Frame} (h : f.Upright) {operand : Tree} {id : Nat}
    (hid : operand.id? = some id) (hlt : f.id < id) (level : Level) :
    (f.take level operand).sourceOrder =
      f.left.sourceOrder ++ f.content :: operand.sourceOrder := by
  rw [take]
  split
  · have hx : Tree.exchanged f.id operand = true := by simp [Tree.exchanged, hid, hlt]
    rw [Tree.sourceOrder, hx]
    rfl
  · exact h.sourceOrder_close operand

theorem Upright.complete_take {f : Frame} (h : f.Upright) {operand : Tree}
    (ho : operand.Complete) (level : Level) : (f.take level operand).Complete := by
  rw [take]
  split
  · exact Tree.complete_op.mpr ⟨ho, h.complete⟩
  · exact Tree.complete_op.mpr ⟨h.complete, ho⟩

theorem id?_take (f : Frame) (level : Level) (operand : Tree) :
    (f.take level operand).id? = some f.id := by
  rw [take]
  split <;> rfl

end Frame

/-- The nodes of the frames in the order of the source. -/
def spineOrder (frames : List Frame) : List (Content × Nat) :=
  frames.flatMap fun f => f.left.sourceOrder ++ [f.content]

section Spine
variable {frames : List Frame} (upright : ∀ f ∈ frames, f.Upright)
include upright

theorem sourceOrder_assemble (rest : Tree) :
    (assemble frames rest).sourceOrder = spineOrder frames ++ rest.sourceOrder := by
  induction frames with
  | nil => rfl
  | cons f frames ih =>
    have ih := ih fun g hg => upright g (by simp [hg])
    have hf := upright f (by simp)
    rw [assemble_cons, hf.sourceOrder_close, ih]
    simp [spineOrder]

theorem sourceOrder_assemble_hole : (assemble frames .hole).sourceOrder = spineOrder frames := by
  rw [sourceOrder_assemble upright]
  exact List.append_nil _

theorem complete_assemble {rest : Tree} (hr : rest.Complete) :
    (assemble frames rest).Complete := by
  induction frames with
  | nil => exact hr
  | cons f frames ih =>
    have ih := ih fun g hg => upright g (by simp [hg])
    exact Tree.complete_op.mpr ⟨(upright f (by simp)).complete, ih⟩

theorem lacking_assemble (hne : frames ≠ []) :
    (assemble frames .hole).lacking = [((frames.getLast hne).id, .right)] := by
  induction frames with
  | nil => contradiction
  | cons f frames ih =>
    obtain ⟨hwhole, hl⟩ := (upright f (by simp)).complete
    rw [assemble_cons, Frame.close, Tree.lacking, isHole_assemble, hwhole, hl]
    cases frames with
    | nil => rfl
    | cons g frames => simpa using ih (fun k hk => upright k (by simp [hk])) (by simp)

variable {operand : Tree} {id : Nat} (hid : operand.id? = some id) (below : ∀ f ∈ frames, f.id < id)
include hid below

theorem sourceOrder_settle (level : Level) :
    (settle level operand frames).sourceOrder = spineOrder frames ++ operand.sourceOrder := by
  induction frames with
  | nil => rfl
  | cons f frames ih =>
    have hf := upright f (by simp)
    cases frames with
    | nil =>
      rw [settle, hf.sourceOrder_take hid (below f (by simp))]
      simp [spineOrder]
    | cons g frames =>
      have ih := ih (fun k hk => upright k (by simp [hk])) fun k hk => below k (by simp [hk])
      rw [settle_cons_cons, hf.sourceOrder_close, ih]
      simp [spineOrder]

omit hid below in
theorem complete_settle (ho : operand.Complete) (level : Level) :
    (settle level operand frames).Complete := by
  induction frames with
  | nil => exact ho
  | cons f frames ih =>
    have hf := upright f (by simp)
    cases frames with
    | nil => exact hf.complete_take ho level
    | cons g frames =>
      exact Tree.complete_op.mpr ⟨hf.complete, ih fun k hk => upright k (by simp [hk])⟩

end Spine

theorem id?_settle_cons (level : Level) (operand : Tree) (f : Frame) (frames : List Frame) :
    (settle level operand (f :: frames)).id? = some f.id := by
  cases frames with
  | nil => exact f.id?_take level operand
  | cons g frames => rfl

theorem spine_assemble (frames : List Frame) :
    (assemble frames .hole).spine = frames.map Frame.id := by
  induction frames with
  | nil => rfl
  | cons f frames ih => rw [assemble_cons, Frame.close, Tree.spine, ih]; rfl

namespace Tree

section Pushed
variable {new : Candidate} {frames : List Frame} (upright : ∀ f ∈ frames, f.Upright) {id : Nat}
  (hid : new.operand.id? = some id) (below : ∀ f ∈ frames, f.id < id)
include upright hid below

theorem spineOrder_pushed :
    spineOrder (pushed new frames) =
      spineOrder frames ++ new.operand.sourceOrder ++ [(.operation new.operator, new.id)] := by
  have hmem : ∀ f ∈ closed new.level frames, f ∈ frames := fun _ => mem_of_mem_closed
  have hs := sourceOrder_settle (fun f hf => upright f (hmem f hf)) hid
    (fun f hf => below f (hmem f hf)) new.level
  calc spineOrder (pushed new frames)
    _ = spineOrder (kept new.level frames) ++
        ((settle new.level new.operand (closed new.level frames)).sourceOrder ++
          [(.operation new.operator, new.id)]) := by
      simp [spineOrder, pushed, Candidate.frame, Frame.content]
    _ = spineOrder (kept new.level frames ++ closed new.level frames) ++
        new.operand.sourceOrder ++ [(.operation new.operator, new.id)] := by
      rw [hs]
      simp [spineOrder]
    _ = _ := by rw [kept_append_closed]

theorem upright_pushed (ho : new.operand.Complete) (hlt : id < new.id) :
    ∀ f ∈ pushed new frames, f.Upright := by
  intro f hf
  rcases List.mem_append.mp hf with hf | hf
  · exact upright f (mem_of_mem_kept hf)
  obtain rfl := List.mem_singleton.mp hf
  refine ⟨complete_settle (fun f hf => upright f (mem_of_mem_closed hf)) ho new.level, ?_⟩
  cases hc : closed new.level frames with
  | nil => exact ⟨id, hid, hlt⟩
  | cons g lower =>
    have hg := below g (mem_of_mem_closed (hc ▸ List.mem_cons_self))
    exact ⟨g.id, id?_settle_cons _ _ g lower, Nat.lt_trans hg hlt⟩

end Pushed
end Tree
end Reckoner

import Reckoner.Proofs.Nodes

/-! The right spine of an open tree. Main statements: levels do not decrease along it, the searches
for the open operation and for parents do not leave it, and so a new operation meets operations of
the spine only on its way up. -/
namespace Reckoner
open Reckoner.Language

namespace Tree
open Placement (Site)

/-- The spine with what its operations do and their levels. -/
def ridge : Tree → List (Nat × Operator × Level)
  | op id operator level _ right => (id, operator, level) :: right.ridge
  | _ => []

/-- An operation of the spine over one further down. -/
def Climbs (upper lower : Nat × Operator × Level) : Prop :=
  upper.2.2 ≤ lower.2.2 ∧
    (upper.2.2 = lower.2.2 → upper.2.1 = .add ∨ upper.2.1 = .multiply ∨ upper.2.1 = .power)

/-- What the searches rely on in an open tree. -/
structure Ridged (tree : Tree) (slot : Nat) : Prop where
  found : tree.openSlot? = some slot
  last : tree.spine.getLast? = some slot
  levels : tree.ridge.Pairwise Climbs
  parents : ∀ before id after, tree.spine = before ++ id :: after →
    tree.parent? id = before.getLast?

/-- What the operation with this number does, and its level. -/
def operation? (target : Nat) : Tree → Option (Operator × Level)
  | op id operator level left right =>
    if id = target then some (operator, level)
    else left.operation? target <|> right.operation? target
  | _ => none

/-- The way up from a node over one parent after the other, past the operations that bind more
tightly than the level, and where it ends. -/
inductive Ascends (tree : Tree) (level : Level) : Option Nat → List Nat → Site → Prop
  | root : Ascends tree level none [] .root
  | past {id : Nat} {operator : Operator} {tighter : Level} {visited : List Nat} {site : Site}
      (found : tree.operation? id = some (operator, tighter)) (above : level < tighter)
      (further : Ascends tree level (tree.parent? id) visited site) :
      Ascends tree level (some id) (id :: visited) site
  | replacing {id : Nat} {operator : Operator} (found : tree.operation? id = some (operator, level))
      (leans : operator.leansLeft = true) : Ascends tree level (some id) [id] (.replacing id)
  | splicedBelow {id : Nat} {operator : Operator} {looser : Level}
      (found : tree.operation? id = some (operator, looser))
      (admits : looser < level ∨ looser = level ∧ operator.leansLeft = false) :
      Ascends tree level (some id) [id] (.splicedBelow id)

/-- The tree after the open operation has taken the operand that a new one brings. -/
def takeOperand (new : Candidate) : Tree → Tree
  | op id operator level left hole => Frame.take ⟨id, operator, level, left⟩ new.level new.operand
  | op id operator level left right => op id operator level left (right.takeOperand new)
  | tree => tree

/-- How the place of a new operation is found: the open operation admits it, or is the first that it
meets on its way up. -/
inductive Places (tree : Tree) (new : Candidate) (slot : Nat) : List Nat → Site → Prop
  | below {operator : Operator} {level : Level}
      (found : tree.operation? slot = some (operator, level))
      (admits : level < new.level ∨ level = new.level ∧ operator.leansLeft = false) :
      Places tree new slot [] (.below slot)
  | above {operator : Operator} {level : Level} {visited : List Nat} {site : Site}
      (found : tree.operation? slot = some (operator, level))
      (refuses : ¬(level < new.level ∨ level = new.level ∧ operator.leansLeft = false))
      (way : Ascends (tree.takeOperand new) new.level (some slot) visited site) :
      Places tree new slot visited site

theorem not_above_of_admits {operator : Operator} {level looser : Level}
    (admits : looser < level ∨ looser = level ∧ operator.leansLeft = false) : ¬level < looser := by
  rcases admits with lt | ⟨rfl, -⟩
  · exact UInt32.not_lt.mpr (UInt32.le_of_lt lt)
  · exact UInt32.lt_irrefl _

theorem Ascends.unique {tree : Tree} {level : Level} {start : Option Nat} {v w : List Nat}
    {site other : Site} (h : Ascends tree level start v site)
    (h' : Ascends tree level start w other) : v = w ∧ site = other := by
  induction h generalizing w other with
  | root =>
    cases h'
    exact ⟨rfl, rfl⟩
  | past found above further ih =>
    cases h' with
    | past found' above' further' =>
      have same := ih further'
      exact ⟨congrArg _ same.1, same.2⟩
    | replacing found' =>
      cases found.symm.trans found'
      exact absurd above (UInt32.lt_irrefl _)
    | splicedBelow found' admits =>
      cases found.symm.trans found'
      exact absurd above (not_above_of_admits admits)
  | replacing found leans =>
    cases h' with
    | past found' above' =>
      cases found.symm.trans found'
      exact absurd above' (UInt32.lt_irrefl _)
    | replacing => exact ⟨rfl, rfl⟩
    | splicedBelow found' admits =>
      cases found.symm.trans found'
      simp [leans, UInt32.lt_irrefl] at admits
  | splicedBelow found admits =>
    cases h' with
    | past found' above' =>
      cases found.symm.trans found'
      exact absurd above' (not_above_of_admits admits)
    | replacing found' leans =>
      cases found.symm.trans found'
      simp [leans, UInt32.lt_irrefl] at admits
    | splicedBelow => exact ⟨rfl, rfl⟩

theorem Places.unique {tree : Tree} {new : Candidate} {slot : Nat} {v w : List Nat}
    {site other : Site} (h : tree.Places new slot v site) (h' : tree.Places new slot w other) :
    v = w ∧ site = other := by
  cases h with
  | below found admits =>
    cases h' with
    | below => exact ⟨rfl, rfl⟩
    | above found' refuses =>
      cases found.symm.trans found'
      exact absurd admits refuses
  | above found refuses way =>
    cases h' with
    | below found' admits =>
      cases found.symm.trans found'
      exact absurd admits refuses
    | above _ _ way' => exact way.unique way'

section Search

theorem openSlot?_of_complete {tree : Tree} (h : tree.Complete) : tree.openSlot? = none := by
  induction tree with
  | hole | leaf => rfl
  | op id operator level left right ihl ihr =>
    obtain ⟨hl, hr⟩ := complete_op.mp h
    cases right with
    | hole => exact absurd hr.1 (by decide)
    | leaf => rfl
    | op =>
      rw [openSlot?, ihl hl, ihr hr]
      · rfl
      · exact Tree.noConfusion
      · exact fun _ _ => Tree.noConfusion

theorem openSlot?_assemble {frames : List Frame} (upright : ∀ f ∈ frames, f.Upright)
    (hne : frames ≠ []) : (assemble frames hole).openSlot? = some (frames.getLast hne).id := by
  induction frames with
  | nil => contradiction
  | cons f frames ih =>
    cases frames with
    | nil => rfl
    | cons g frames =>
      have left := openSlot?_of_complete (upright f (by simp)).complete
      have right := ih (fun k hk => upright k (by simp [hk])) (by simp)
      rw [assemble_cons, Frame.close, assemble_cons, Frame.close, openSlot?, left]
      · rw [List.getLast_cons (by simp), ← right]
        rfl
      · exact Tree.noConfusion
      · exact fun _ _ => Tree.noConfusion

theorem id?_ne {tree : Tree} {target : Nat} (h : target ∉ tree.ids) : tree.id? ≠ some target :=
  fun eq => h (mem_ids_of_subtree (p := []) (by rwa [subtree_nil]))

theorem parent?_eq_none {tree : Tree} {target : Nat} (h : target ∉ tree.ids.tail) :
    tree.parent? target = none := by
  induction tree with
  | hole | leaf => rfl
  | op id operator level left right ihl ihr =>
    rw [ids, List.tail_cons, List.mem_append, not_or] at h
    have hl := ihl fun mem => h.1 (List.mem_of_mem_tail mem)
    have hr := ihr fun mem => h.2 (List.mem_of_mem_tail mem)
    simp [parent?, id?_ne h.1, id?_ne h.2, hl, hr]

theorem parent?_right {id target : Nat} {operator : Operator} {level : Level} {left right : Tree}
    (hl : target ∉ left.ids) (hr : right.id? ≠ some target) :
    (op id operator level left right).parent? target = right.parent? target := by
  have none := parent?_eq_none fun mem => hl (List.mem_of_mem_tail mem)
  simp [parent?, id?_ne hl, hr, none]

theorem operation?_eq_none {tree : Tree} {target : Nat} (h : target ∉ tree.ids) :
    tree.operation? target = none := by
  induction tree with
  | hole | leaf => rfl
  | op id operator level left right ihl ihr =>
    rw [ids, List.mem_cons, List.mem_append, not_or, not_or] at h
    simp [operation?, Ne.symm h.1, ihl h.2.1, ihr h.2.2]

theorem mem_ids_assemble (pre post : List Frame) (f : Frame) (rest : Tree) :
    f.id ∈ (assemble (pre ++ f :: post) rest).ids := by
  induction pre with
  | nil => exact List.mem_cons_self
  | cons p pre ih => exact .tail _ (List.mem_append_right _ ih)

theorem parent?_assemble {pre post : List Frame} {f : Frame} {rest : Tree}
    (nodup : (assemble (pre ++ f :: post) rest).ids.Nodup) :
    (assemble (pre ++ f :: post) rest).parent? f.id = pre.getLast?.map Frame.id := by
  induction pre with
  | nil => exact parent?_eq_none (List.nodup_cons.mp nodup).1
  | cons p pre ih =>
    rw [List.cons_append, assemble_cons, Frame.close] at *
    obtain ⟨-, nodup⟩ := List.nodup_cons.mp nodup
    obtain ⟨-, nodup, disjoint⟩ := List.nodup_append.mp nodup
    have below := mem_ids_assemble pre post f rest
    have apart : f.id ∉ p.left.ids := fun mem => disjoint _ mem _ below rfl
    cases pre with
    | nil => simp [parent?, assemble_cons, Frame.close, id?]
    | cons q pre =>
      have hne : q.id ≠ f.id := fun same =>
        (List.nodup_cons.mp nodup).1
          (same ▸ List.mem_append_right _ (mem_ids_assemble pre post f rest))
      have root : (assemble (q :: pre ++ f :: post) rest).id? = some q.id := rfl
      rw [parent?_right apart (by rw [root]; exact fun same => hne (Option.some.inj same)),
        ih nodup]
      rfl

theorem operation?_assemble {pre post : List Frame} {f : Frame} {rest : Tree}
    (nodup : (assemble (pre ++ f :: post) rest).ids.Nodup) :
    (assemble (pre ++ f :: post) rest).operation? f.id = some (f.operator, f.level) := by
  induction pre with
  | nil => simp [assemble_cons, Frame.close, operation?]
  | cons p pre ih =>
    rw [List.cons_append, assemble_cons, Frame.close] at *
    obtain ⟨root, nodup⟩ := List.nodup_cons.mp nodup
    obtain ⟨-, nodup, disjoint⟩ := List.nodup_append.mp nodup
    have below := mem_ids_assemble pre post f rest
    have hl := operation?_eq_none fun mem => disjoint _ mem _ below rfl
    have hne : p.id ≠ f.id := fun same => root (same ▸ List.mem_append_right _ below)
    simp [operation?, hne, hl, ih nodup]

end Search

section Site

/-- Where a new operation of this level ends its way up, if it does so at this frame. -/
def halt? (level : Level) (f : Frame) : Option Site :=
  if level < f.level then none
  else if f.level = level && f.operator.leansLeft then some (.replacing f.id)
  else some (.splicedBelow f.id)

def Insertion.site? : Insertion → Option Site
  | placed _ site => some site
  | rising _ => none

theorem site?_rise (new : Candidate) (f : Frame) (right : Tree) :
    (rise new (f.close right)).site? = halt? new.level f := by
  rw [Frame.close, rise, halt?]
  split
  · rfl
  · split <;> rfl

theorem site?_meet (new : Candidate) (f : Frame) :
    (meet new f.id f.operator f.level f.left).site? =
      if f.Admits new.level then some (.below f.id) else halt? new.level f := by
  rw [meet]
  by_cases hf : f.Admits new.level
  · rw [if_pos hf, if_pos (by simpa [Frame.Admits] using hf)]
    rfl
  · rw [if_neg hf, if_neg (by simpa [Frame.Admits] using hf)]
    split
    · exact site?_rise new ⟨f.id, f.operator, f.level, new.operand⟩ f.left
    · exact site?_rise new f new.operand

theorem exists_root (frames : List Frame) (slot : Frame) :
    ∃ root lower, frames ++ [slot] = root :: lower :=
  List.exists_cons_of_ne_nil (List.append_ne_nil_of_right_ne_nil frames (List.cons_ne_nil slot []))

/-- On the way up the frames are met from the last to the first. -/
theorem site?_descend (new : Candidate) (frames : List Frame) (slot : Frame) :
    ∃ insertion, (assemble (frames ++ [slot]) hole).descend new = some insertion ∧
      insertion.site? = if slot.Admits new.level then some (.below slot.id)
        else (frames ++ [slot]).reverse.findSome? (halt? new.level) := by
  induction frames with
  | nil =>
    refine ⟨_, descend_singleton new slot, ?_⟩
    rw [site?_meet]
    split
    · rfl
    · simp
  | cons f frames ih =>
    obtain ⟨insertion, found, site⟩ := ih
    obtain ⟨g, lower, split⟩ := exists_root frames slot
    rw [List.cons_append, split, descend_close, ← split, found, List.reverse_cons,
      List.findSome?_append]
    cases insertion with
    | placed right place =>
      refine ⟨_, rfl, ?_⟩
      change some place = _ at site
      change some place = _
      rw [site]
      split
      · rfl
      next refuses =>
        rw [if_neg refuses] at site
        rw [← site]
        rfl
    | rising right =>
      change none = _ at site
      have refuses : ¬slot.Admits new.level := fun admits => by
        rw [if_pos admits] at site
        contradiction
      rw [if_neg refuses] at site ⊢
      refine ⟨_, rfl, ?_⟩
      rw [← site, site?_rise]
      simp

theorem site_of_insert? (new : Candidate) (frames : List Frame) (slot : Frame) :
    ∃ tree, (assemble (frames ++ [slot]) hole).insert? new =
      some (tree, if slot.Admits new.level then .below slot.id
        else ((frames ++ [slot]).reverse.findSome? (halt? new.level)).getD .root) := by
  obtain ⟨insertion, found, site⟩ := site?_descend new frames slot
  rw [insert?, found]
  cases insertion with
  | placed tree place =>
    refine ⟨tree, ?_⟩
    change some place = _ at site
    split at site
    next admits =>
      rw [if_pos admits, Option.some.inj site]
    next refuses =>
      rw [if_neg refuses, ← site]
      rfl
  | rising tree =>
    refine ⟨new.over tree, ?_⟩
    change none = _ at site
    split at site
    · contradiction
    next refuses =>
      rw [if_neg refuses, ← site]
      rfl

theorem ascends_along {tree : Tree} {frames : List Frame}
    (along : ∀ below f above, frames = below ++ f :: above →
      tree.operation? f.id = some (f.operator, f.level) ∧
        tree.parent? f.id = above.head?.map Frame.id) (level : Level) :
    ∃ visited, tree.Ascends level (frames.head?.map Frame.id) visited
        ((frames.findSome? (halt? level)).getD .root) ∧
      visited <+: frames.map Frame.id := by
  induction frames with
  | nil => exact ⟨[], .root, List.nil_prefix⟩
  | cons f above ih =>
    obtain ⟨found, parent⟩ := along [] f above rfl
    have more := ih fun below g rest split => along (f :: below) g rest (by rw [split]; rfl)
    rw [List.head?_cons, Option.map_some, List.findSome?_cons, List.map_cons]
    obtain ⟨visited, further, begins⟩ := more
    by_cases tighter : level < f.level
    · rw [← parent] at further
      refine ⟨f.id :: visited, ?_, List.cons_prefix_cons.mpr ⟨rfl, begins⟩⟩
      rw [halt?, if_pos tighter]
      exact .past found tighter further
    · refine ⟨[f.id], ?_, List.cons_prefix_cons.mpr ⟨rfl, List.nil_prefix⟩⟩
      rw [halt?, if_neg tighter]
      by_cases leans : f.level = level ∧ f.operator.leansLeft = true
      · rw [if_pos (by simpa using leans)]
        exact .replacing (leans.1 ▸ found) leans.2
      · rw [if_neg (by simpa using leans)]
        refine .splicedBelow found ?_
        by_cases same : f.level = level
        · exact .inr ⟨same, by simpa [same] using leans⟩
        · exact .inl (UInt32.lt_of_le_of_ne (UInt32.not_lt.mp tighter) same)

theorem takeOperand_assemble (new : Candidate) (frames : List Frame) (slot : Frame) :
    (assemble (frames ++ [slot]) hole).takeOperand new =
      assemble frames (slot.take new.level new.operand) := by
  induction frames with
  | nil => rfl
  | cons f frames ih =>
    obtain ⟨g, lower, split⟩ := exists_root frames slot
    rw [List.cons_append, assemble_cons, assemble_cons, ← ih, split, assemble_cons, Frame.close,
      Frame.close, takeOperand]
    · rfl
    · exact Tree.noConfusion

theorem settle_append (level : Level) (operand : Tree) (frames : List Frame) (slot : Frame) :
    settle level operand (frames ++ [slot]) = assemble frames (slot.take level operand) := by
  induction frames with
  | nil => rfl
  | cons f frames ih =>
    obtain ⟨g, lower, split⟩ := exists_root frames slot
    rw [List.cons_append, split, settle_cons_cons, ← split, ih, assemble_cons]

/-- Whether or not its operands are exchanged, the operation stays where it is. -/
theorem exists_close_of_take (f : Frame) (level : Level) (operand : Tree) :
    ∃ left right, f.take level operand = (Frame.mk f.id f.operator f.level left).close right := by
  rw [Frame.take]
  split
  · exact ⟨operand, f.left, rfl⟩
  · exact ⟨f.left, operand, rfl⟩

theorem ascends_assemble {frames : List Frame} {rest : Tree}
    (nodup : (assemble frames rest).ids.Nodup) (level : Level) :
    ∃ visited, (assemble frames rest).Ascends level (frames.getLast?.map Frame.id) visited
        ((frames.reverse.findSome? (halt? level)).getD .root) ∧
      visited.reverse <:+ frames.map Frame.id := by
  have along : ∀ below f above, frames.reverse = below ++ f :: above →
      (assemble frames rest).operation? f.id = some (f.operator, f.level) ∧
        (assemble frames rest).parent? f.id = above.head?.map Frame.id := by
    intro below f above split
    have split : frames = above.reverse ++ f :: below.reverse := by
      rw [← List.reverse_reverse frames, split]
      simp
    rw [split] at nodup ⊢
    rw [operation?_assemble nodup, parent?_assemble nodup, List.getLast?_reverse]
    exact ⟨rfl, rfl⟩
  obtain ⟨visited, way, begins⟩ := ascends_along along level
  rw [List.head?_reverse] at way
  refine ⟨visited, way, ?_⟩
  have ends := List.reverse_suffix.mpr begins
  rwa [List.map_reverse, List.reverse_reverse] at ends

section Insert
variable {frames : List Frame} {slot : Frame} (new : Candidate)

theorem ascends_taken (nodup : ((assemble (frames ++ [slot]) hole).takeOperand new).ids.Nodup) :
    ∃ visited, ((assemble (frames ++ [slot]) hole).takeOperand new).Ascends new.level
        (some slot.id) visited
        (((frames ++ [slot]).reverse.findSome? (halt? new.level)).getD .root) ∧
      visited.reverse <:+ (assemble (frames ++ [slot]) hole).spine := by
  obtain ⟨left, right, taken⟩ := exists_close_of_take slot new.level new.operand
  have filled : (assemble (frames ++ [slot]) hole).takeOperand new =
      assemble (frames ++ [⟨slot.id, slot.operator, slot.level, left⟩]) right := by
    rw [takeOperand_assemble, taken, assemble_append]
    rfl
  rw [filled] at nodup ⊢
  obtain ⟨visited, way, ends⟩ := ascends_assemble nodup new.level
  rw [List.getLast?_concat, List.reverse_append] at way
  rw [List.map_append] at ends
  refine ⟨visited, ?_, ?_⟩
  · rw [List.reverse_append]
    exact way
  · rw [spine_assemble, List.map_append]
    exact ends

theorem places_assemble (apart : (assemble (frames ++ [slot]) hole).ids.Nodup)
    (taken : ((assemble (frames ++ [slot]) hole).takeOperand new).ids.Nodup) :
    ∃ tree visited site, (assemble (frames ++ [slot]) hole).insert? new = some (tree, site) ∧
      (assemble (frames ++ [slot]) hole).Places new slot.id visited site ∧
      visited.reverse <:+ (assemble (frames ++ [slot]) hole).spine := by
  obtain ⟨tree, inserted⟩ := site_of_insert? new frames slot
  have found := operation?_assemble apart
  by_cases admits : slot.Admits new.level
  · rw [if_pos admits] at inserted
    exact ⟨tree, [], _, inserted, .below found admits, List.nil_suffix⟩
  · rw [if_neg admits] at inserted
    obtain ⟨visited, way, ends⟩ := ascends_taken new taken
    exact ⟨tree, visited, _, inserted, .above found admits way, ends⟩

theorem insert?_of_admits (stacked : Stacked (frames ++ [slot]))
    (admits : ∀ f ∈ frames ++ [slot], f.Admits new.level) :
    (assemble (frames ++ [slot]) hole).insert? new =
      some (assemble (frames ++ [slot]) (new.over new.operand), .below slot.id) := by
  obtain ⟨site, pushes⟩ := insert?_assemble new (by simp) stacked
  obtain ⟨tree, inserted⟩ := site_of_insert? new frames slot
  rw [if_pos (admits slot (by simp))] at inserted
  rw [inserted, pushed, kept_eq_self admits, closed_eq_nil admits, assemble_append] at pushes
  rw [inserted, (Prod.mk.inj (Option.some.inj pushes)).1]
  rfl

end Insert
end Site

section Levels

theorem ridge_assemble (frames : List Frame) :
    (assemble frames hole).ridge = frames.map fun f => (f.id, f.operator, f.level) := by
  induction frames with
  | nil => rfl
  | cons f frames ih => rw [assemble_cons, Frame.close, ridge, ih]; rfl

theorem climbs_of_admits {f g : Frame} (h : f.Admits g.level) :
    Climbs (f.id, f.operator, f.level) (g.id, g.operator, g.level) := by
  refine ⟨f.level_le_of_admits h, fun same => ?_⟩
  rcases h with lt | ⟨-, leans⟩
  · exact absurd same (UInt32.ne_of_lt lt)
  · cases ho : f.operator <;> simp_all [Operator.leansLeft]

theorem ridged_assemble {frames : List Frame} {slot : Frame} (stacked : Stacked (frames ++ [slot]))
    (upright : ∀ f ∈ frames ++ [slot], f.Upright)
    (nodup : (assemble (frames ++ [slot]) hole).ids.Nodup) :
    (assemble (frames ++ [slot]) hole).Ridged slot.id where
  found := by
    rw [openSlot?_assemble upright (by simp)]
    simp
  last := by
    rw [spine_assemble]
    simp
  levels := by
    rw [ridge_assemble]
    exact List.pairwise_map.mpr (stacked.imp climbs_of_admits)
  parents := by
    intro before id after ids
    rw [spine_assemble] at ids
    obtain ⟨pre, rest, split, rfl, hrest⟩ := List.map_eq_append_iff.mp ids
    obtain ⟨f, post, rfl, rfl, rfl⟩ := List.map_eq_cons_iff.mp hrest
    clear ids
    rw [split] at nodup ⊢
    rw [parent?_assemble nodup, List.getLast?_map]

end Levels

end Tree

theorem Builder.operate_of_insert? {b : Builder} {operator : Operator} {tier : Tier}
    {operand tree : Tree} {site : Placement.Site} (grown : b.tree.isHole = false)
    (h : b.tree.insert? ⟨b.made, operator, .of b.depth tier, operand⟩ = some (tree, site)) :
    ∃ next, b.operate operator tier operand = .ok next ∧ next.tree = tree ∧
      next.placements = ⟨b.made, .of b.depth tier, site⟩ :: b.placements := by
  simp [operate, grown, h]

namespace Stack

theorem Lists.nodup_open {s : Stack} {contents : List Content} (h : s.Lists contents) :
    (assemble s.frames .hole).ids.Nodup := by
  rw [← (Tree.sourceOrder_perm _).nodup_iff, sourceOrder_assemble_hole h.upright]
  exact h.sorted.imp Nat.ne_of_lt

theorem Lists.nodup_settle {s : Stack} {contents : List Content} (h : s.Lists contents)
    {operand : Tree} (ha : s.awaiting = .operator operand) (level : Level) :
    (settle level operand s.frames).ids.Nodup := by
  have order : spineOrder s.frames ++ operand.sourceOrder = contents.zipIdx := by
    simpa [pending, ha] using h.order
  obtain ⟨id, n, rfl, -, below⟩ := leaf_of_order (h.operand operand ha) order
  exact Tree.nodup_of_sourceOrder ((sourceOrder_settle h.upright rfl below level).trans order)

section Take
variable {s : Stack} {frames : List Frame} {slot : Frame} (hf : s.frames = frames ++ [slot])
  (source : String) (placements : List Placement)
include hf

theorem tree_builder : (s.builder source placements).tree = assemble (frames ++ [slot]) .hole :=
  congrArg (assemble · .hole) hf

theorem isHole_builder : (s.builder source placements).tree.isHole = false := by
  rw [tree_builder hf, isHole_assemble]
  simp

theorem take_operator_places {contents : List Content} (lists : s.Lists contents) {token : Token}
    {operator : Operator} {operand : Tree} (ha : s.awaiting = .operator operand)
    (hk : token.kind = .operator operator) :
    ∃ next visited site, (s.builder source placements).take token = .ok next ∧
      next.placements = ⟨s.made, .of s.depth operator.tier, site⟩ :: placements ∧
      (s.builder source placements).tree.Places
        ⟨s.made, operator, .of s.depth operator.tier, operand⟩ slot.id visited site ∧
      visited.reverse <:+ (s.builder source placements).tree.spine := by
  have nodup := lists.nodup_open
  have taken := lists.nodup_settle ha (.of s.depth operator.tier)
  rw [hf] at nodup
  rw [hf, Tree.settle_append] at taken
  obtain ⟨tree, visited, site, inserted, places, ends⟩ := Tree.places_assemble
    ⟨s.made, operator, .of s.depth operator.tier, operand⟩ nodup
    (by rwa [Tree.takeOperand_assemble])
  rw [← tree_builder hf source placements] at inserted places ends
  obtain ⟨next, operated, -, placed⟩ :=
    Builder.operate_of_insert? (isHole_builder hf source placements) inserted
  rw [← Builder.take_operator ha hk] at operated
  exact ⟨next, visited, site, operated, placed, places, ends⟩

theorem take_negated_below (stacked : Stacked s.frames)
    (admits : ∀ f ∈ s.frames, f.Admits (.of s.depth .exponential)) {token : Token}
    (ha : s.awaiting = .signed true) (hk : token.kind = .openParen) :
    ∃ next, (s.builder source placements).take token = .ok next ∧
      next.placements = ⟨s.made + 1, .of s.depth .exponential, .below slot.id⟩ :: placements ∧
      (s.builder source placements).tree.fillSlot? (.op (s.made + 1) .multiply
        (.of s.depth .exponential) (.leaf s.made (.integer (-1))) .hole) = some next.tree := by
  rw [hf] at stacked admits
  have hne : frames ++ [slot] ≠ [] := by simp
  have inserted := Tree.insert?_of_admits
    ⟨s.made + 1, .multiply, .of s.depth .exponential, .leaf s.made (.integer (-1))⟩ stacked admits
  have filled := Tree.fillSlot?_assemble hne
    (.op (s.made + 1) .multiply (.of s.depth .exponential) (.leaf s.made (.integer (-1))) .hole)
  rw [← tree_builder hf source placements] at inserted filled
  obtain ⟨next, operated, grown, placed⟩ := Builder.operate_of_insert?
    (b := { s.builder source placements with made := s.made + 1 })
    (isHole_builder hf source placements) inserted
  have negated : (s.builder source placements).negateGroup = .ok next := operated
  refine ⟨next.openGroup, ?_, placed, filled.trans (congrArg some grown.symm)⟩
  rw [Builder.take_negated ha hk, negated]
  rfl

end Take
end Stack

/-- Wherever the parser has come to, the searches in the open tree find what they look for: the
operation that lacks an operand is the last of the spine, and parents lead up the spine. So an
operator behind an operand is placed by passing operations of the spine, and the product of a
negated group goes directly below the last of them. -/
theorem spine_of_reached {source : String} {symbols : Numeral.Symbols} {before after : List Token}
    {b : Builder} (split : (Scanner.ofSource source symbols).scan.1 = before ++ after)
    (reached : (Builder.start source).takeAll before = (.ok (), b)) (grown : b.tree ≠ .hole) :
    ∃ slot, b.tree.Ridged slot ∧
      (∀ token operator operand, b.awaiting = .operator operand →
        token.kind = .operator operator →
        ∃ next visited site, b.take token = .ok next ∧
          next.placements = ⟨b.made, .of b.depth operator.tier, site⟩ :: b.placements ∧
          b.tree.Places ⟨b.made, operator, .of b.depth operator.tier, operand⟩ slot visited site ∧
          visited.reverse <:+ b.tree.spine) ∧
      (∀ token, opens (Scanner.ofSource source symbols).scan.1 < maxGroups →
        b.awaiting = .signed true → token.kind = .openParen →
        ∃ next, b.take token = .ok next ∧
          next.placements =
            ⟨b.made + 1, .of b.depth .exponential, .below slot⟩ :: b.placements ∧
          b.tree.fillSlot? (.op (b.made + 1) .multiply (.of b.depth .exponential)
            (.leaf b.made (.integer (-1))) .hole) = some next.tree) := by
  obtain ⟨s, placements, hs, rfl⟩ := Stack.exists_of_takeAll split reached
  have stacked := Stack.stacked_takeAll Stack.stacked_start hs
  have lists := Stack.lists_of_takeAll hs
  have hne : s.frames ≠ [] := fun none => grown (congrArg (assemble · .hole) none)
  obtain ⟨frames, slot, hf⟩ : ∃ frames slot, s.frames = frames ++ [slot] :=
    ⟨_, _, (List.dropLast_concat_getLast hne).symm⟩
  refine ⟨slot.id, ?_, ?_, ?_⟩
  · rw [Stack.tree_builder hf]
    exact Tree.ridged_assemble (hf ▸ stacked) (hf ▸ lists.upright) (hf ▸ lists.nodup_open)
  · intro token operator operand ha hk
    exact Stack.take_operator_places hf source placements lists ha hk
  · intro token few ha hk
    have before_few : 0 + opens before < maxGroups := by
      rw [split, opens_append] at few
      omega
    obtain ⟨groups, leveled⟩ := Stack.leveled_takeAll before_few Stack.leveled_start hs
    have admits := leveled.admits fun operand none => Awaiting.noConfusion (ha.symm.trans none)
    exact Stack.take_negated_below hf source placements stacked admits ha hk

/-- A difference rises past the power and the product to the root; a negated group stays below the
product that it is a factor of. -/
theorem spine_of_power_and_negated_group :
    let source := "2*3^4-5*-(6)"
    let tokens := (Scanner.ofSource source .standard).scan.1
    let powers : Tree := .op 1 .multiply 1 (.leaf 0 (.integer 2))
      (.op 3 .power 2 (.leaf 2 (.integer 3)) .hole)
    let difference : Tree.Candidate := ⟨5, .subtract, 0, .leaf 4 (.integer 4)⟩
    opens tokens < maxGroups ∧
      powers.Ridged 3 ∧ powers.Places difference 3 [3, 1] .root ∧
      (∃ b next, (Builder.start source).takeAll (tokens.take 5) = (.ok (), b) ∧
        b.tree = powers ∧ b.take ⟨.operator .subtract, "-", 5⟩ = .ok next ∧
        next.placements = ⟨5, 0, .root⟩ :: b.placements) ∧
      ∃ b next, (Builder.start source).takeAll (tokens.take 9) = (.ok (), b) ∧
        b.tree.Ridged 7 ∧ b.take ⟨.openParen, "(", 9⟩ = .ok next ∧
        next.placements = ⟨9, 2, .below 7⟩ :: b.placements := by
  intro source tokens powers difference
  have few : opens tokens < maxGroups := by decide +kernel
  have places : powers.Places difference 3 [3, 1] .root :=
    .above rfl (by decide) (.past rfl (by decide) (.past rfl (by decide) .root))
  let b : Builder :=
    ⟨source, powers, .operator difference.operand, 0, 5, [⟨3, 2, .below 1⟩]⟩
  have reached : (Builder.start source).takeAll (tokens.take 5) = (.ok (), b) :=
    Prod.ext (eq_ok_of_toOption (by decide +kernel)) (by decide +kernel)
  obtain ⟨slot, ridged, operators, -⟩ :=
    spine_of_reached (List.take_append_drop 5 tokens).symm reached Tree.noConfusion
  obtain rfl : 3 = slot := Option.some.inj ridged.found
  obtain ⟨next, visited, site, taken, placed, found, -⟩ :=
    operators ⟨.operator .subtract, "-", 5⟩ .subtract difference.operand rfl rfl
  obtain rfl : .root = site := (places.unique found).2
  let c : Builder := ((Builder.start source).takeAll (tokens.take 9)).2
  have reached' : (Builder.start source).takeAll (tokens.take 9) = (.ok (), c) :=
    Prod.ext (eq_ok_of_toOption (by decide +kernel)) rfl
  have state : c.tree.openSlot? = some 7 ∧ c.awaiting = .signed true ∧ c.made = 8 ∧
      c.depth = 0 := by
    decide +kernel
  obtain ⟨slot', ridged', -, groups⟩ :=
    spine_of_reached (List.take_append_drop 9 tokens).symm reached' (by decide +kernel)
  obtain rfl : 7 = slot' := Option.some.inj (state.1.symm.trans ridged'.found)
  obtain ⟨next', taken', placed', -⟩ := groups ⟨.openParen, "(", 9⟩ few state.2.1 rfl
  rw [state.2.2.1, state.2.2.2] at placed'
  exact ⟨few, ridged, places, ⟨b, next, reached, rfl, taken, placed⟩,
    ⟨c, next', reached', ridged', taken', placed'⟩⟩

end Reckoner

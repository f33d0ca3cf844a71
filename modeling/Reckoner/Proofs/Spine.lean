import Reckoner.Tree.Placement

/-! Open trees as stacks. The right spine of a tree that lacks its last operand is a list of frames,
the root first. Main statement: a new operation goes on top of the frames that admit its level and
takes what the frames above them close to as its left operand. -/
namespace Reckoner

/-- An operation of the spine with its left operand. -/
structure Frame where
  id : Nat
  operator : Operator
  level : Level
  left : Tree

namespace Frame

def close (f : Frame) (right : Tree) : Tree :=
  .op f.id f.operator f.level f.left right

/-- Whether an operation of this level may be the right operand. -/
def Admits (f : Frame) (level : Level) : Prop :=
  f.level < level ∨ f.level = level ∧ f.operator.leansLeft = false

instance (f : Frame) (level : Level) : Decidable (f.Admits level) :=
  inferInstanceAs (Decidable (_ ∨ _))

/-- The open operation with its operand, when an operation of this level comes next. -/
def take (f : Frame) (level : Level) (operand : Tree) : Tree :=
  if level < f.level && f.operator.commutes && !f.left.isLeaf then
    .op f.id f.operator f.level operand f.left
  else f.close operand

theorem admits_of_lt {f : Frame} {level higher : Level} (h : f.Admits level)
    (hlt : level < higher) : f.Admits higher := by
  rcases h with h | ⟨rfl, _⟩
  · exact .inl (UInt32.lt_trans h hlt)
  · exact .inl hlt

theorem level_le_of_admits {f : Frame} {level : Level} (h : f.Admits level) :
    f.level ≤ level := by
  rcases h with h | ⟨rfl, _⟩
  · exact UInt32.le_of_lt h
  · exact UInt32.le_refl _

theorem lt_of_not_admits {f g : Frame} {level : Level} (hf : ¬f.Admits level)
    (hfg : f.Admits g.level) : level < g.level := by
  simp only [Admits, not_or, UInt32.not_lt] at hf
  rcases hfg with hlt | ⟨heq, hlean⟩
  · exact UInt32.lt_of_le_of_lt hf.1 hlt
  · refine UInt32.lt_of_le_of_ne (heq ▸ hf.1) fun h => hf.2 ⟨heq.trans h.symm, hlean⟩

end Frame

/-- The tree with these frames as its right spine. -/
def assemble (frames : List Frame) (rest : Tree) : Tree :=
  frames.foldr Frame.close rest

/-- What frames close to with their operand, when an operation of this level comes next. -/
def settle (level : Level) (operand : Tree) : List Frame → Tree
  | [] => operand
  | [slot] => slot.take level operand
  | f :: frames => f.close (settle level operand frames)

/-- Each frame admits all frames above it. -/
def Stacked (frames : List Frame) : Prop :=
  frames.Pairwise fun f g => f.Admits g.level

/-- The frames that stay when an operation of this level comes. -/
def kept (level : Level) (frames : List Frame) : List Frame :=
  frames.takeWhile fun f => f.Admits level

def closed (level : Level) (frames : List Frame) : List Frame :=
  frames.dropWhile fun f => f.Admits level

@[simp] theorem assemble_nil (rest : Tree) : assemble [] rest = rest := rfl

@[simp] theorem assemble_singleton (f : Frame) (rest : Tree) :
    assemble [f] rest = f.close rest := rfl

theorem assemble_cons (f : Frame) (frames : List Frame) (rest : Tree) :
    assemble (f :: frames) rest = f.close (assemble frames rest) := rfl

theorem assemble_append (frames more : List Frame) (rest : Tree) :
    assemble (frames ++ more) rest = assemble frames (assemble more rest) :=
  List.foldr_append

theorem settle_cons_cons (level : Level) (operand : Tree) (f g : Frame) (frames : List Frame) :
    settle level operand (f :: g :: frames) = f.close (settle level operand (g :: frames)) := rfl

@[simp] theorem isHole_assemble (frames : List Frame) :
    (assemble frames .hole).isHole = frames.isEmpty := by
  cases frames <;> rfl

theorem kept_append_closed (level : Level) (frames : List Frame) :
    kept level frames ++ closed level frames = frames :=
  List.takeWhile_append_dropWhile

theorem admits_of_mem_kept {level : Level} {frames : List Frame} {f : Frame}
    (mem : f ∈ kept level frames) : f.Admits level := by
  simpa using List.all_eq_true.mp List.all_takeWhile f mem

theorem mem_of_mem_kept {level : Level} {frames : List Frame} {f : Frame}
    (mem : f ∈ kept level frames) : f ∈ frames :=
  (List.takeWhile_sublist _).subset mem

theorem mem_of_mem_closed {level : Level} {frames : List Frame} {f : Frame}
    (mem : f ∈ closed level frames) : f ∈ frames :=
  (List.dropWhile_sublist _).subset mem

theorem kept_cons (level : Level) (f : Frame) (frames : List Frame) :
    kept level (f :: frames) = if f.Admits level then f :: kept level frames else [] := by
  simp [kept, List.takeWhile_cons]

theorem closed_cons (level : Level) (f : Frame) (frames : List Frame) :
    closed level (f :: frames) = if f.Admits level then closed level frames else f :: frames := by
  simp [closed, List.dropWhile_cons]

theorem kept_append {level : Level} {frames : List Frame} (h : ∀ f ∈ frames, f.Admits level)
    (more : List Frame) : kept level (frames ++ more) = frames ++ kept level more := by
  induction frames with
  | nil => rfl
  | cons f frames ih =>
    have hf := h f (by simp)
    have ih := ih fun g hg => h g (by simp [hg])
    simp [kept_cons, hf, ih]

theorem closed_append {level : Level} {frames : List Frame} (h : ∀ f ∈ frames, f.Admits level)
    (more : List Frame) : closed level (frames ++ more) = closed level more := by
  induction frames with
  | nil => rfl
  | cons f frames ih =>
    have hf := h f (by simp)
    have ih := ih fun g hg => h g (by simp [hg])
    simp [closed_cons, hf, ih]

theorem kept_eq_self {level : Level} {frames : List Frame} (h : ∀ f ∈ frames, f.Admits level) :
    kept level frames = frames := by
  have hk := kept_append h []
  rw [List.append_nil] at hk
  exact hk.trans (List.append_nil _)

theorem closed_eq_nil {level : Level} {frames : List Frame} (h : ∀ f ∈ frames, f.Admits level) :
    closed level frames = [] := by
  have hc := closed_append h []
  rwa [List.append_nil] at hc

/-- Once a frame does not admit the level, all that stand on it lie above it. -/
theorem Stacked.closed_eq {level : Level} {frames lower : List Frame} {g : Frame}
    (h : Stacked frames) (hc : closed level frames = g :: lower) :
    ¬g.Admits level ∧ ∀ f ∈ lower, level < f.level := by
  induction frames with
  | nil => simp [closed] at hc
  | cons f frames ih =>
    obtain ⟨hf, h⟩ := List.pairwise_cons.mp h
    rw [closed_cons] at hc
    split at hc
    · exact ih h hc
    next hn =>
      obtain ⟨rfl, rfl⟩ := List.cons.inj hc
      exact ⟨hn, fun k hk => f.lt_of_not_admits hn (hf k hk)⟩

namespace Tree

theorem meet_above {new : Candidate} {f : Frame} (h : new.level < f.level) :
    meet new f.id f.operator f.level f.left = .rising (f.take new.level new.operand) := by
  have hlt : ¬f.level < new.level := UInt32.not_lt.mpr (UInt32.le_of_lt h)
  have hne : f.level ≠ new.level := (UInt32.ne_of_lt h).symm
  simp only [meet, Frame.take, Frame.close, h, hlt, hne, decide_true, decide_false]
  split
  · simp at *
  · split <;> simp [rise, *]

theorem meet_not_above {new : Candidate} {f : Frame} (h : ¬new.level < f.level) :
    ∃ site, meet new f.id f.operator f.level f.left = .placed
      (assemble (kept new.level [f])
        (new.over (settle new.level new.operand (closed new.level [f])))) site := by
  by_cases hf : f.Admits new.level
  · refine ⟨.below f.id, ?_⟩
    rw [kept_cons, closed_cons, if_pos hf, if_pos hf]
    simp only [Frame.Admits] at hf
    simp [meet, Frame.close, settle, kept, closed, hf]
  · refine ⟨.replacing f.id, ?_⟩
    rw [kept_cons, closed_cons, if_neg hf, if_neg hf]
    simp only [Frame.Admits, not_or, not_and, Bool.not_eq_false] at hf
    have heq : f.level = new.level :=
      UInt32.le_antisymm (UInt32.not_lt.mp h) (UInt32.not_lt.mp hf.1)
    simp [meet, rise, Frame.take, Frame.close, settle, heq, hf.2 heq]

theorem descend_singleton (new : Candidate) (f : Frame) :
    (assemble [f] hole).descend new = some (meet new f.id f.operator f.level f.left) := rfl

theorem descend_close (new : Candidate) (f g : Frame) (frames : List Frame) :
    (assemble (f :: g :: frames) hole).descend new =
      match (assemble (g :: frames) hole).descend new with
      | some (.placed right site) => some (.placed (f.close right) site)
      | some (.rising right) => some (rise new (f.close right))
      | none => none := by
  rcases hd : (assemble (g :: frames) hole).descend new with _ | ⟨_ | _⟩ <;>
    rw [assemble_cons, assemble_cons] at * <;> rw [Frame.close, descend, hd] <;> simp [Frame.close]

theorem descend_above (new : Candidate) (f : Frame) (frames : List Frame)
    (h : ∀ g ∈ f :: frames, new.level < g.level) :
    (assemble (f :: frames) hole).descend new =
      some (.rising (settle new.level new.operand (f :: frames))) := by
  induction frames generalizing f with
  | nil => rw [descend_singleton, meet_above (h f (by simp)), settle]
  | cons g frames ih =>
    have hrest := ih g fun k hk => h k (by simp [hk])
    have hf := h f (by simp)
    rw [descend_close, hrest]
    simp [Frame.close, rise, settle, hf]

theorem kept_above {level : Level} {frames : List Frame} (h : ∀ f ∈ frames, level < f.level) :
    kept level frames = [] ∧ closed level frames = frames := by
  cases frames with
  | nil => exact ⟨rfl, rfl⟩
  | cons f frames =>
    have hf : ¬f.Admits level := fun ha =>
      UInt32.not_le.mpr (h f (by simp)) (Frame.level_le_of_admits ha)
    rw [kept_cons, closed_cons, if_neg hf, if_neg hf]
    exact ⟨rfl, rfl⟩

theorem descend_stacked (new : Candidate) (f : Frame) (frames : List Frame)
    (stacked : Stacked (f :: frames)) (h : ∃ g ∈ f :: frames, ¬new.level < g.level) :
    ∃ site, (assemble (f :: frames) hole).descend new = some (.placed
      (assemble (kept new.level (f :: frames))
        (new.over (settle new.level new.operand (closed new.level (f :: frames))))) site) := by
  induction frames generalizing f with
  | nil =>
    obtain ⟨site, hm⟩ := @meet_not_above new f (by simpa using h)
    exact ⟨site, by rw [descend_singleton, hm]⟩
  | cons g frames ih =>
    obtain ⟨hf, hrest⟩ := List.pairwise_cons.mp stacked
    by_cases hlow : ∃ k ∈ g :: frames, ¬new.level < k.level
    · -- the place is found further down, so this frame admits the level
      obtain ⟨site, hd⟩ := ih g hrest hlow
      have ha : f.Admits new.level := by
        obtain ⟨k, hk, hkl⟩ := hlow
        exact Decidable.not_not.mp fun hn => hkl (f.lt_of_not_admits hn (hf k hk))
      refine ⟨site, ?_⟩
      rw [descend_close, hd, kept_cons _ f, closed_cons _ f, if_pos ha, if_pos ha]
      rfl
    · -- everything further down has risen
      have habove : ∀ k ∈ g :: frames, new.level < k.level := fun k hk =>
        Decidable.not_not.mp fun hn => hlow ⟨k, hk, hn⟩
      have hfl : ¬new.level < f.level := by
        obtain ⟨k, hk, hkl⟩ := h
        rcases List.mem_cons.mp hk with rfl | hk
        · exact hkl
        · exact absurd (habove k hk) hkl
      rw [descend_close, descend_above new g frames habove, kept_cons _ f, closed_cons _ f]
      obtain ⟨hkept, hclosed⟩ := kept_above habove
      by_cases ha : f.Admits new.level
      · refine ⟨.splicedBelow f.id, ?_⟩
        rw [if_pos ha, if_pos ha, hkept, hclosed]
        have hne : ¬(f.level = new.level ∧ f.operator.leansLeft = true) := by
          rcases ha with ha | ⟨_, ha⟩
          · exact fun h => UInt32.ne_of_lt ha h.1
          · exact fun h => by simp [ha] at h
        simp [Frame.close, rise, hfl, hne]
      · refine ⟨.replacing f.id, ?_⟩
        rw [if_neg ha, if_neg ha]
        simp only [Frame.Admits, not_or, not_and, Bool.not_eq_false] at ha
        have heq : f.level = new.level :=
          UInt32.le_antisymm (UInt32.not_lt.mp hfl) (UInt32.not_lt.mp ha.1)
        simp [Frame.close, rise, settle, heq, ha.2 heq]

/-- The frame that a new operation becomes when it takes what is closed as its left operand. -/
def Candidate.frame (new : Candidate) (left : Tree) : Frame :=
  ⟨new.id, new.operator, new.level, left⟩

/-- The spine after a new operation has come. -/
def pushed (new : Candidate) (frames : List Frame) : List Frame :=
  kept new.level frames ++ [new.frame (settle new.level new.operand (closed new.level frames))]

theorem insert?_assemble (new : Candidate) {frames : List Frame} (hne : frames ≠ [])
    (stacked : Stacked frames) :
    ∃ site, (assemble frames hole).insert? new = some (assemble (pushed new frames) hole, site) := by
  obtain ⟨f, frames, rfl⟩ := List.exists_cons_of_ne_nil hne
  simp only [pushed, assemble_append]
  by_cases h : ∃ g ∈ f :: frames, ¬new.level < g.level
  · obtain ⟨site, hd⟩ := descend_stacked new f frames stacked h
    exact ⟨site, by rw [insert?, hd]; rfl⟩
  · have habove : ∀ k ∈ f :: frames, new.level < k.level := fun k hk =>
      Decidable.not_not.mp fun hn => h ⟨k, hk, hn⟩
    obtain ⟨hkept, hclosed⟩ := kept_above habove
    refine ⟨.root, ?_⟩
    rw [insert?, descend_above new f frames habove, hkept, hclosed]
    rfl

theorem stacked_pushed (new : Candidate) {frames : List Frame} (stacked : Stacked frames) :
    Stacked (pushed new frames) := by
  refine List.pairwise_append.mpr ⟨stacked.sublist (List.takeWhile_sublist _), by simp, ?_⟩
  intro f hf g hg
  obtain rfl := List.mem_singleton.mp hg
  exact admits_of_mem_kept hf

theorem fillSlot?_assemble {frames : List Frame} (hne : frames ≠ []) (operand : Tree) :
    (assemble frames hole).fillSlot? operand = some (assemble frames operand) := by
  induction frames with
  | nil => contradiction
  | cons f frames ih =>
    cases frames with
    | nil => rfl
    | cons g frames =>
      have hrest := ih (by simp)
      simp only [assemble_cons] at hrest ⊢
      rw [Frame.close, fillSlot?, hrest]
      · rfl
      · simp [Frame.close]

end Tree
end Reckoner

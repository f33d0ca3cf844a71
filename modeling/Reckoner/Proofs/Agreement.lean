import Mathlib.Data.List.TakeWhile
import Reckoner.Proofs.Evaluation
import Reckoner.Proofs.Nodes
import Reckoner.Proofs.Reading

/-! The parser against the conventional reading. Main statement: if no float occurs, the value of a
parsed source is the value of its tokens as they are conventionally read. -/
namespace Reckoner
open Reckoner.Language

/-- If it has no floats, the tree means what the expression means. -/
def Denotes (tree : Tree) (e : Expression) : Prop :=
  (∀ n ∈ tree.numbers, n.isFloat = false) → tree.meaning = e.meaning

theorem Numeral.rational_of_digits {text : List Char} (h : text.all Char.isDigit) :
    rational text = value text := by
  have hpass : ∀ c ∈ text, (c != '.') = true := fun c hc =>
    ne_point_of_isDigit (List.all_eq_true.mp h c hc)
  have htake : text.takeWhile (· != '.') = text := List.takeWhile_eq_self_iff.mpr hpass
  have hdrop : text.dropWhile (· != '.') = [] := List.dropWhile_eq_nil_iff.mpr hpass
  simp [rational, htake, hdrop]

theorem Numeral.read?_exact {negative : Bool} {token : Token} {n : Number}
    (h : read? negative token = some n) (hf : n.isFloat = false) :
    ∃ w, n = .integer w ∧
      (w.toInt : ℚ) = (if negative then -1 else 1) * rational token.text.toList := by
  unfold read? at h
  split at h
  · rw [readInteger?] at h
    dsimp only at h
    split at h
    · contradiction
    next hd =>
      simp only [Bool.or_eq_true, not_or, Bool.not_eq_true', Bool.not_eq_false] at hd
      rw [rational_of_digits hd.2]
      cases hw : Word.ofInt? (if negative then -(value token.text.toList : Int)
          else value token.text.toList) with
      | none =>
        rw [hw] at h
        obtain rfl := Option.some.inj h
        contradiction
      | some w =>
        rw [hw] at h
        obtain rfl := Option.some.inj h
        refine ⟨w, rfl, ?_⟩
        rw [Word.ofInt?_eq_some_iff.mp hw]
        cases negative <;> simp
  · simp only [readDecimal?] at h
    split at h
    · contradiction
    · obtain rfl := Option.some.inj h
      contradiction
  · contradiction

theorem denotes_literal {negative : Bool} {token : Token} {n : Number}
    (h : Numeral.read? negative token = some n) (id : Nat) :
    Denotes (.leaf id n)
      (.number ((if negative then -1 else 1) * Numeral.rational token.text.toList)) := by
  intro hf
  obtain ⟨w, rfl, hw⟩ := Numeral.read?_exact h (hf n (by simp [Tree.numbers]))
  rw [Tree.meaning, Expression.meaning, Number.rational?, hw]

theorem mem_numbers_assemble {frames : List Frame} {rest : Tree} {n : Number} :
    n ∈ (assemble frames rest).numbers ↔
      (∃ f ∈ frames, n ∈ f.left.numbers) ∨ n ∈ rest.numbers := by
  induction frames with
  | nil => simp
  | cons f frames ih =>
    rw [assemble_cons, Frame.close, Tree.numbers, List.mem_append, ih]
    simp [or_assoc]

theorem meaning_assemble_congr {rest rest' : Tree} (h : rest.meaning = rest'.meaning)
    (frames : List Frame) : (assemble frames rest).meaning = (assemble frames rest').meaning := by
  induction frames with
  | nil => exact h
  | cons f frames ih => rw [assemble_cons, assemble_cons, meaning_close, meaning_close, ih]

/-- An operator takes what stands before it as its left operand, whatever the tree makes of it. -/
theorem denotes_join {frames : List Frame} {operand right : Tree} {a b : Expression} {level : Level}
    {operator : Operator} (chain : ∀ f ∈ kept level frames,
      f.operator.commutes = true ∧ f.operator.tier = operator.tier)
    (ha : Denotes (assemble frames operand) a) (hb : Denotes right b) (id : Nat) :
    Denotes (assemble (kept level frames)
      (.op id operator level (settle level operand (closed level frames)) right))
      (.apply operator a b) := by
  intro hf
  have hframes := kept_append_closed level frames
  have hleft : ∀ n ∈ (assemble frames operand).numbers, n.isFloat = false := by
    intro n hn
    refine hf n (mem_numbers_assemble.mpr ?_)
    rw [← hframes, assemble_append, mem_numbers_assemble, ← mem_numbers_settle] at hn
    exact hn.imp_right fun h => List.mem_append_left _ h
  have hright : ∀ n ∈ right.numbers, n.isFloat = false := fun n hn =>
    hf n (mem_numbers_assemble.mpr (.inr (List.mem_append_right _ hn)))
  rw [meaning_assemble_chain chain rfl, hb hright,
    meaning_assemble_congr (meaning_settle _ _ _), ← assemble_append, hframes, ha hleft]
  rfl

namespace Stack

theorem take_literal {s s' : Stack} {token : Token} {negative : Bool}
    (ha : s.awaiting = .signed negative ∨ s.awaiting = .operand ∧ negative = false)
    (hk : token.kind.isLiteral) (h : s.take token = some s') :
    ∃ n, Numeral.read? negative token = some n ∧
      s' = { s with awaiting := .operator (.leaf s.made n), made := s.made + 1 } := by
  have step := step_of_take h
  cases step with
  | literal negative' n ha' hk' hr =>
    have same : negative' = negative := by
      rcases ha with ha | ⟨ha, rfl⟩ <;> rcases ha' with ha' | ⟨ha', rfl⟩ <;> rw [ha] at ha'
      · exact (Awaiting.signed.inj ha').symm
      · contradiction
      · contradiction
    rw [same] at hr
    exact ⟨n, hr, rfl⟩
  | opened _ hk' | negated _ hk' | signed _ _ hk' | closed _ _ hk' | operated _ _ _ hk' =>
    rw [hk'] at hk
    contradiction

theorem operate_join {s s₁ : Stack} {frames : List Frame} {operand : Tree} {operator : Operator}
    {a : Expression} {level : Level} (hl : level = .of s₁.depth operator.tier)
    (hs : s₁.frames = s.frames ++ frames)
    (admits : ∀ f ∈ s.frames, f.Admits level)
    (chain : ∀ f ∈ kept level frames, f.operator.commutes = true ∧ f.operator.tier = operator.tier)
    (ha : Denotes (assemble frames operand) a) :
    ∃ more, (s₁.operate operator operator.tier operand).frames = s.frames ++ more ∧
      (∀ f ∈ more, f ∈ kept level frames ∨ f.level = level ∧ f.operator = operator) ∧
      ∀ right b, Denotes right b → Denotes (assemble more right) (.apply operator a b) := by
  have hk := kept_append admits frames
  have hc := closed_append admits frames
  refine ⟨kept level frames ++
    [⟨s₁.made, operator, level, settle level operand (closed level frames)⟩], ?_, ?_, ?_⟩
  · simp only [operate, Tree.pushed, Tree.Candidate.frame]
    rw [← hl, hs, hk, hc, List.append_assoc]
  · intro f hf
    refine (List.mem_append.mp hf).imp_right fun hf => ?_
    rw [List.mem_singleton.mp hf]
    exact ⟨rfl, rfl⟩
  · intro right b hb
    rw [assemble_append]
    exact denotes_join chain ha hb s₁.made

end Stack

/-- What a phrase leaves on the spine: nothing that its own operators could not close or chain. -/
def Language.Phrase.Leaves (depth : UInt32) : Phrase → Frame → Prop
  | .sum, f => Level.of depth .additive < f.level ∨
      f.level = .of depth .additive ∧ f.operator.tier = .additive
  | .product, f => Level.of depth .multiplicative < f.level ∨
      f.level = .of depth .multiplicative ∧ f.operator.tier = .multiplicative
  | .power, f => Level.of depth .multiplicative < f.level
  | .operand, f => Level.of depth .exponential < f.level

/-- The loosest operators of a phrase. -/
def Language.Phrase.tier : Phrase → Tier
  | .sum => .additive
  | .product => .multiplicative
  | .power | .operand => .exponential

namespace Stack

/-- A phrase has been read on top of the frames of `s`. -/
structure Reached (p : Phrase) (e : Expression) (s s' : Stack) : Prop where
  depth : s'.depth = s.depth
  read : ∃ frames operand, s'.frames = s.frames ++ frames ∧ s'.awaiting = .operator operand ∧
    (∀ f ∈ frames, p.Leaves s.depth f) ∧ Denotes (assemble frames operand) e

theorem Reached.of_leaves {p q : Phrase} {e : Expression} {s s' : Stack} (h : Reached p e s s')
    (leaves : ∀ f, p.Leaves s.depth f → q.Leaves s.depth f) : Reached q e s s' := by
  obtain ⟨frames, operand, hs, ha, hl, hd⟩ := h.read
  exact ⟨h.depth, frames, operand, hs, ha, fun f hf => leaves f (hl f hf), hd⟩

theorem chain_of_leaves {depth : UInt32} {tier : Tier} (ht : tier ≠ .exponential)
    {frames : List Frame} (leaves : ∀ f ∈ frames, Level.of depth tier < f.level ∨
      f.level = .of depth tier ∧ f.operator.tier = tier) :
    ∀ f ∈ kept (.of depth tier) frames, f.operator.commutes = true ∧ f.operator.tier = tier := by
  intro f hf
  have admits := admits_of_mem_kept hf
  have hle := Frame.level_le_of_admits admits
  rcases leaves f (mem_of_mem_kept hf) with hlt | ⟨heq, hft⟩
  · exact absurd hle (UInt32.not_le.mpr hlt)
  · rcases admits with hlt | ⟨-, hlean⟩
    · exact absurd heq (UInt32.ne_of_lt hlt)
    · refine ⟨?_, hft⟩
      cases hop : f.operator <;> simp_all [Operator.leansLeft, Operator.commutes, Operator.tier]

/-- Wherever the phrase may stand, its tokens leave a tree that denotes the expression. -/
def Reaches (p : Phrase) (tokens : List Token) (e : Expression) : Prop :=
  ∀ s s' : Stack, s.awaiting = .operand → s.depth.toNat + opens tokens < maxGroups →
    (∀ f ∈ s.frames, f.Admits (.of s.depth p.tier)) → s.takeAll tokens = some s' →
    Reached p e s s'

theorem reaches_literal {token : Token} (literal : token.kind.isLiteral) :
    Reaches .operand [token] (.number (Numeral.rational token.text.toList)) := by
  intro s s' ha _ _ ht
  rw [takeAll_cons] at ht
  obtain ⟨s₁, h₁, ht⟩ := Option.bind_eq_some_iff.mp ht
  obtain rfl := Option.some.inj ht
  obtain ⟨n, hr, rfl⟩ := take_literal (.inr ⟨ha, rfl⟩) literal h₁
  refine ⟨rfl, [], .leaf s.made n, (List.append_nil _).symm, rfl, by simp, ?_⟩
  simpa using denotes_literal hr s.made

theorem reaches_signed {sign token : Token} {negative : Bool}
    (hs : sign.kind = .operator (if negative then .subtract else .add))
    (literal : token.kind.isLiteral) :
    Reaches .operand [sign, token]
      (.number ((if negative then -1 else 1) * Numeral.rational token.text.toList)) := by
  intro s s' ha _ _ ht
  have hsign : s.take sign = some { s with awaiting := .signed negative } :=
    take_of_step (.signed negative ha hs)
  rw [takeAll_cons, hsign, Option.bind_some, takeAll_cons] at ht
  obtain ⟨s₁, h₁, ht⟩ := Option.bind_eq_some_iff.mp ht
  obtain rfl := Option.some.inj ht
  obtain ⟨n, hr, rfl⟩ := take_literal (.inl rfl) literal h₁
  exact ⟨rfl, [], .leaf s.made n, (List.append_nil _).symm, rfl, by simp, denotes_literal hr s.made⟩

theorem reaches_group {opening closing : Token} {tokens : List Token} {e : Expression}
    (ho : opening.kind = .openParen) (h : Reaches .sum tokens e)
    (hc : closing.kind = .closeParen) : Reaches .operand (opening :: tokens ++ [closing]) e := by
  intro s s' ha few admits ht
  have hopen : s.take opening = some s.openGroup := take_of_step (.opened (.inl ha) ho)
  rw [List.cons_append, opens_cons, opens_append, ho] at few
  simp only [if_true] at few
  rw [List.cons_append, takeAll_cons, hopen, Option.bind_some, takeAll_append] at ht
  obtain ⟨s₁, h₁, ht⟩ := Option.bind_eq_some_iff.mp ht
  have hdepth : s.openGroup.depth.toNat = s.depth.toNat + 1 := toNat_succ_depth (by omega)
  have hinner : ∀ f ∈ s.openGroup.frames, f.Admits (.of s.openGroup.depth .additive) :=
    fun f hf => f.admits_of_lt (admits f hf) (Level.of_lt_succ (by omega) _ _)
  obtain ⟨hd, frames, operand, hs, hop, leaves, denotes⟩ :=
    h s.openGroup s₁ rfl (by rw [hdepth]; omega) hinner h₁
  have hclose : s₁.take closing = some s₁.closeGroup := take_of_step (.closed operand hop hc)
  rw [takeAll_cons, hclose] at ht
  obtain rfl := Option.some.inj ht
  refine ⟨?_, frames, operand, hs, hop, fun f hf => ?_, denotes⟩
  · have hne : s₁.depth ≠ 0 := by
      intro h0
      rw [hd] at h0
      rw [h0] at hdepth
      exact absurd hdepth (by simp)
    rw [closeGroup, if_neg hne, hd]
    exact UInt32.add_sub_cancel _ _
  · have hlt : Level.of s.depth .exponential < Level.of s.openGroup.depth .additive :=
      Level.of_lt_succ (by omega) _ _
    rcases leaves f hf with hf | ⟨hf, -⟩
    · exact UInt32.lt_trans hlt hf
    · change Level.of s.depth .exponential < f.level
      rwa [hf]

theorem reaches_plus {sign opening : Token} {tokens : List Token} {e : Expression}
    (hs : sign.kind = .operator .add) (ho : opening.kind = .openParen)
    (h : Reaches .operand (opening :: tokens) e) :
    Reaches .operand (sign :: opening :: tokens) e := by
  intro s s' ha few admits ht
  have htake : s.takeAll (sign :: opening :: tokens) = s.takeAll (opening :: tokens) := by
    simp [takeAll_cons, take, ha, hs, ho, openGroup]
  rw [opens_cons, hs] at few
  exact h s s' ha (by simpa using few) admits (htake ▸ ht)

theorem reaches_negated {sign opening : Token} {tokens : List Token} {e : Expression}
    (hs : sign.kind = .operator .subtract) (ho : opening.kind = .openParen)
    (h : Reaches .power (opening :: tokens) e) :
    Reaches .power (sign :: opening :: tokens) (.apply .multiply (.number (-1)) e) := by
  intro s s' ha few admits ht
  have htake : s.takeAll (sign :: opening :: tokens) = s.negate.takeAll (opening :: tokens) := by
    simp [takeAll_cons, take, ha, hs, ho, openGroup, negate, operate]
  rw [opens_cons, hs] at few
  simp only [reduceCtorEq, if_false, Nat.add_zero] at few
  have hadmits : ∀ f ∈ s.negate.frames, f.Admits (.of s.negate.depth .exponential) :=
    admits_operate (s := { s with made := s.made + 1 }) (by change s.depth.toNat < _; omega)
      (by simp [Operator.leansLeft]) _
  obtain ⟨hd, frames, operand, hs', hop, leaves, denotes⟩ :=
    h s.negate s' rfl few hadmits (htake ▸ ht)
  refine ⟨hd, s.negation :: frames, operand, ?_, hop, ?_, ?_⟩
  · rw [hs', frames_negate admits, List.append_assoc]
    rfl
  · intro f hf
    rcases List.mem_cons.mp hf with rfl | hf
    · exact Level.multiplicative_lt (by omega)
    · exact leaves f hf
  · intro hf
    rw [assemble_cons, meaning_close, denotes fun n hn => hf n (List.mem_append_right _ hn)]
    simp [Expression.meaning, negation, Tree.meaning, Number.rational?]

theorem reaches_join {p q r : Phrase} {before after : List Token} {a b : Expression} {token : Token}
    {operator : Operator} (ha : Reaches p before a) (hk : token.kind = .operator operator)
    (hb : Reaches q after b) (hp : p.tier = operator.tier) (hr : r.tier = operator.tier)
    (chain : ∀ (depth : UInt32) frames, depth.toNat < maxGroups →
      (∀ f ∈ frames, p.Leaves depth f) → ∀ f ∈ kept (.of depth operator.tier) frames,
        (f.operator.commutes = true ∧ f.operator.tier = operator.tier) ∧ r.Leaves depth f)
    (next : ∀ (depth : UInt32) (f : Frame), depth.toNat < maxGroups →
      f.Admits (.of depth operator.tier) ∨ f.level = .of depth operator.tier ∧ f.operator = operator →
      f.Admits (.of depth q.tier))
    (made : ∀ (depth : UInt32) (f : Frame), depth.toNat < maxGroups →
      f.level = .of depth operator.tier → f.operator = operator → r.Leaves depth f)
    (leaves : ∀ (depth : UInt32) (f : Frame), depth.toNat < maxGroups → q.Leaves depth f →
      r.Leaves depth f) :
    Reaches r (before ++ token :: after) (.apply operator a b) := by
  intro s s' hop few admits ht
  rw [opens_append, opens_cons, hk] at few
  simp only [reduceCtorEq, if_false, Nat.add_zero] at few
  have small : s.depth.toNat < maxGroups := by omega
  rw [hr] at admits
  rw [takeAll_append] at ht
  obtain ⟨s₁, h₁, ht⟩ := Option.bind_eq_some_iff.mp ht
  obtain ⟨hd₁, frames, operand, hs₁, hop₁, hl₁, da⟩ :=
    ha s s₁ hop (by omega) (by rwa [hp]) h₁
  have htake : s₁.take token = some (s₁.operate operator operator.tier operand) :=
    take_of_step (.operated operand operator hop₁ hk)
  rw [takeAll_cons, htake, Option.bind_some] at ht
  have hchain := chain s.depth frames small hl₁
  obtain ⟨more, hs₂, hmore, join⟩ := operate_join (by rw [hd₁]) hs₁ admits
    (fun f hf => (hchain f hf).1) da
  have hd₂ : (s₁.operate operator operator.tier operand).depth = s.depth := hd₁
  have admits₂ : ∀ f ∈ (s₁.operate operator operator.tier operand).frames,
      f.Admits (.of (s₁.operate operator operator.tier operand).depth q.tier) := by
    intro f hf
    rw [hd₂]
    apply next s.depth f small
    rw [hs₂] at hf
    rcases List.mem_append.mp hf with hf | hf
    · exact .inl (admits f hf)
    · exact (hmore f hf).imp_left admits_of_mem_kept
  obtain ⟨hd₃, frames', operand', hs₃, hop₃, hl₃, db⟩ :=
    hb _ s' rfl (by rw [hd₂]; omega) admits₂ ht
  refine ⟨hd₃.trans hd₂, more ++ frames', operand', ?_, hop₃, ?_, ?_⟩
  · rw [hs₃, hs₂, List.append_assoc]
  · intro f hf
    rcases List.mem_append.mp hf with hf | hf
    · rcases hmore f hf with hf | ⟨hlevel, hoperator⟩
      · exact (hchain f hf).2
      · exact made s.depth f small hlevel hoperator
    · exact leaves s.depth f small (hd₂ ▸ hl₃ f hf)
  · rw [assemble_append]
    exact join _ _ db

theorem reaches_raise {caret : Token} {before after : List Token} {a b : Expression}
    (ha : Reaches .operand before a) (hk : caret.kind = .operator .power)
    (hb : Reaches .power after b) :
    Reaches .power (before ++ caret :: after) (.apply .power a b) := by
  refine reaches_join ha hk hb rfl rfl ?_ ?_ ?_ ?_
  · intro depth frames small hl f hf
    have hk : kept (.of depth .exponential) frames = [] := (Tree.kept_above hl).1
    change f ∈ kept (.of depth .exponential) frames at hf
    rw [hk] at hf
    exact absurd hf List.not_mem_nil
  · intro depth f small h
    exact h.elim id fun ⟨hlevel, hoperator⟩ => .inr ⟨hlevel, by rw [hoperator]; rfl⟩
  · intro depth f small hlevel hoperator
    change _ < f.level
    rw [hlevel]
    exact Level.multiplicative_lt small
  · exact fun _ _ _ h => h

theorem reaches_chain {p q : Phrase} {token : Token} {before after : List Token} {a b : Expression}
    {operator : Operator} (ha : Reaches p before a) (hk : token.kind = .operator operator)
    (hb : Reaches q after b) (hp : p.tier = operator.tier) (loose : operator.tier ≠ .exponential)
    (tighter : operator.tier.rank.toNat < q.tier.rank.toNat)
    (chain : ∀ (depth : UInt32) (f : Frame), p.Leaves depth f ↔
      Level.of depth operator.tier < f.level ∨
        f.level = .of depth operator.tier ∧ f.operator.tier = operator.tier)
    (above : ∀ (depth : UInt32) (f : Frame), depth.toNat < maxGroups → q.Leaves depth f →
      Level.of depth operator.tier < f.level) :
    Reaches p (before ++ token :: after) (.apply operator a b) := by
  refine reaches_join ha hk hb hp hp ?_ ?_ ?_ ?_
  · intro depth frames small hl f hf
    have hchain := chain_of_leaves loose fun g hg => (chain depth g).mp (hl g hg)
    exact ⟨hchain f hf, hl f (mem_of_mem_kept hf)⟩
  · intro depth f small h
    have hlt := Level.of_lt_of small tighter
    rcases h with h | ⟨hlevel, -⟩
    · exact f.admits_of_lt h hlt
    · exact .inl (hlevel ▸ hlt)
  · intro depth f small hlevel hoperator
    exact (chain depth f).mpr (.inr ⟨hlevel, hoperator ▸ rfl⟩)
  · intro depth f small hl
    exact (chain depth f).mpr (.inl (above depth f small hl))

theorem above_of_product {depth : UInt32} {f : Frame} (small : depth.toNat < maxGroups)
    (h : Phrase.product.Leaves depth f) : Level.of depth .additive < f.level := by
  have hlt := Level.additive_lt small
  rcases h with h | ⟨h, -⟩
  · exact UInt32.lt_trans hlt h
  · rwa [h]

theorem reaches_scale {token : Token} {before after : List Token} {a b : Expression}
    {operator : Operator} (ha : Reaches .product before a) (hk : token.kind = .operator operator)
    (tier : operator.tier = .multiplicative) (hb : Reaches .power after b) :
    Reaches .product (before ++ token :: after) (.apply operator a b) := by
  apply reaches_chain ha hk hb tier.symm <;> rw [tier]
  · decide
  · decide
  · intro depth f
    rfl
  · intro depth f small hl
    exact hl

theorem reaches_combine {token : Token} {before after : List Token} {a b : Expression}
    {operator : Operator} (ha : Reaches .sum before a) (hk : token.kind = .operator operator)
    (tier : operator.tier = .additive) (hb : Reaches .product after b) :
    Reaches .sum (before ++ token :: after) (.apply operator a b) := by
  apply reaches_chain ha hk hb tier.symm <;> rw [tier]
  · decide
  · decide
  · intro depth f
    rfl
  · intro depth f small hl
    exact above_of_product small hl

theorem reaches_larger {p q : Phrase} {tokens : List Token} {e : Expression}
    (h : Reaches p tokens e)
    (next : ∀ (depth : UInt32) (f : Frame), depth.toNat < maxGroups →
      f.Admits (.of depth q.tier) → f.Admits (.of depth p.tier))
    (leaves : ∀ (depth : UInt32) (f : Frame), depth.toNat < maxGroups → p.Leaves depth f →
      q.Leaves depth f) : Reaches q tokens e := by
  intro s s' ha few admits ht
  have small : s.depth.toNat < maxGroups := by omega
  have reached := h s s' ha few (fun f hf => next s.depth f small (admits f hf)) ht
  exact reached.of_leaves fun f hl => leaves s.depth f small hl

theorem reaches_of_reads {p : Phrase} {tokens : List Token} {e : Expression}
    (h : Reads p tokens e) : Reaches p tokens e := by
  induction h with
  | literal literal => exact reaches_literal literal
  | signed negative hs literal => exact reaches_signed hs literal
  | group ho h hc ih => exact reaches_group ho ih hc
  | plus hs ho h ih => exact reaches_plus hs ho ih
  | negated hs ho h ih => exact reaches_negated hs ho ih
  | operand h ih =>
    refine reaches_larger ih (fun _ _ _ h => h) ?_
    intro depth f small hl
    exact UInt32.lt_trans (Level.multiplicative_lt small) hl
  | raise ha hk hb iha ihb => exact reaches_raise iha hk ihb
  | power h ih =>
    refine reaches_larger ih ?_ (fun _ _ _ h => .inl h)
    intro depth f small h
    exact f.admits_of_lt h (Level.multiplicative_lt small)
  | scale ha hk tier hb iha ihb => exact reaches_scale iha hk tier ihb
  | product h ih =>
    refine reaches_larger ih ?_ ?_
    · intro depth f small h
      exact f.admits_of_lt h (Level.additive_lt small)
    · intro depth f small hl
      exact .inl (above_of_product small hl)
  | combine ha hk tier hb iha ihb => exact reaches_combine iha hk tier ihb

end Stack
end Reckoner

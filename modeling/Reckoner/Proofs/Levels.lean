import Reckoner.Proofs.Stack

/-! Levels and nesting. Main statement: as long as levels fit 32 bits, the depth is the number of open
groups, and while an operand is awaited every frame admits the tightest operation of that depth. -/
namespace Reckoner

namespace Language
open Token (Kind)

def groupsAfter (groups : Nat) : Kind → Nat
  | .openParen => groups + 1
  | .closeParen => groups - 1
  | _ => groups

def levelAt (groups : Nat) (operator : Operator) : Nat :=
  groups * 3 + operator.tier.rank.toNat

def opens (tokens : List Token) : Nat :=
  tokens.countP (·.kind = .openParen)

/-- Where the levels of a depth would no longer fit 32 bits. -/
def maxGroups : Nat := 1431655765

theorem opens_append (tokens more : List Token) : opens (tokens ++ more) = opens tokens + opens more :=
  List.countP_append

theorem opens_cons (token : Token) (rest : List Token) :
    opens (token :: rest) = opens rest + if token.kind = .openParen then 1 else 0 := by
  simp [opens, List.countP_cons]

theorem groupsAfter_add_opens_le (groups : Nat) (token : Token) (rest : List Token) :
    groupsAfter groups token.kind + opens rest ≤ groups + opens (token :: rest) := by
  rw [opens_cons]
  cases token.kind with
  | openParen =>
    rw [groupsAfter, if_pos rfl]
    omega
  | closeParen =>
    rw [groupsAfter]
    omega
  | _ => simp [groupsAfter]

end Language

open Reckoner.Language

theorem Tier.rank_le (tier : Tier) : tier.rank.toNat ≤ 2 := by
  cases tier <;> decide

theorem toNat_succ_depth {depth : UInt32} (h : depth.toNat + 1 < maxGroups) :
    (depth + 1).toNat = depth.toNat + 1 := by
  rw [UInt32.toNat_add]
  exact Nat.mod_eq_of_lt (by rw [maxGroups] at h; simp; omega)

theorem Level.toNat_of {depth : UInt32} (h : depth.toNat < maxGroups) (tier : Tier) :
    (Level.of depth tier).toNat = depth.toNat * 3 + tier.rank.toNat := by
  have hr := tier.rank_le
  have hm : (depth * 3).toNat = depth.toNat * 3 := by
    rw [UInt32.toNat_mul]
    exact Nat.mod_eq_of_lt (by rw [maxGroups] at h; simp; omega)
  rw [Level.of, UInt32.toNat_add, hm]
  exact Nat.mod_eq_of_lt (by rw [maxGroups] at h; omega)

theorem Level.of_lt_of {depth : UInt32} (h : depth.toNat < maxGroups) {tier tighter : Tier}
    (hr : tier.rank.toNat < tighter.rank.toNat) : Level.of depth tier < Level.of depth tighter := by
  rw [UInt32.lt_iff_toNat_lt, toNat_of h, toNat_of h]
  omega

theorem Level.additive_lt {depth : UInt32} (h : depth.toNat < maxGroups) :
    Level.of depth .additive < Level.of depth .multiplicative :=
  of_lt_of h (by decide)

theorem Level.multiplicative_lt {depth : UInt32} (h : depth.toNat < maxGroups) :
    Level.of depth .multiplicative < Level.of depth .exponential :=
  of_lt_of h (by decide)

theorem Level.lt_exponential_or_eq {depth : UInt32} (h : depth.toNat < maxGroups) (tier : Tier) :
    Level.of depth tier < Level.of depth .exponential ∨ tier = .exponential := by
  cases tier with
  | exponential => exact .inr rfl
  | additive | multiplicative => exact .inl (of_lt_of h (by decide))

theorem Level.of_lt_succ {depth : UInt32} (h : depth.toNat + 1 < maxGroups) (tier deeper : Tier) :
    Level.of depth tier < Level.of (depth + 1) deeper := by
  have hd := toNat_succ_depth h
  have hr := tier.rank_le
  rw [UInt32.lt_iff_toNat_lt, toNat_of (by omega), toNat_of (by omega), hd]
  omega

theorem Frame.admits_exponential {f : Frame} {depth : UInt32} {tier : Tier}
    (hd : depth.toNat < maxGroups) (h : f.Admits (.of depth tier)) :
    f.Admits (.of depth .exponential) := by
  rcases Level.lt_exponential_or_eq hd tier with hlt | rfl
  · exact f.admits_of_lt h hlt
  · exact h

namespace Stack

structure Leveled (s : Stack) (groups : Nat) : Prop where
  depth : s.depth.toNat = groups
  few : groups < maxGroups
  admits : (∀ operand, s.awaiting ≠ .operator operand) →
    ∀ f ∈ s.frames, f.Admits (.of s.depth .exponential)

theorem leveled_start : start.Leveled 0 :=
  ⟨rfl, by decide, fun _ _ hf => absurd hf List.not_mem_nil⟩

/-- The tightest operations lean right, or the parser would not give them this tier. -/
theorem admits_operate {s : Stack} (few : s.depth.toNat < maxGroups) {operator : Operator}
    {tier : Tier} (hlean : tier = .exponential → operator.leansLeft = false) (operand : Tree) :
    ∀ f ∈ (s.operate operator tier operand).frames, f.Admits (.of s.depth .exponential) := by
  intro f hf
  rcases List.mem_append.mp hf with hf | hf
  · exact Frame.admits_exponential few (admits_of_mem_kept hf)
  · obtain rfl := List.mem_singleton.mp hf
    rcases Level.lt_exponential_or_eq few tier with hlt | rfl
    · exact .inl hlt
    · exact .inr ⟨rfl, hlean rfl⟩

theorem leveled_openGroup {s : Stack} {groups : Nat} (depth : s.depth.toNat = groups)
    (few : groups + 1 < maxGroups)
    (admits : ∀ f ∈ s.frames, f.Admits (.of s.depth .exponential)) :
    s.openGroup.Leveled (groups + 1) := by
  refine ⟨?_, few, fun _ f hf => ?_⟩
  · change (s.depth + 1).toNat = groups + 1
    rw [toNat_succ_depth (by omega), depth]
  · exact f.admits_of_lt (admits f hf) (Level.of_lt_succ (by omega) _ _)

theorem leveled_step {s s' : Stack} {token : Token} {groups : Nat} (h : s.Leveled groups)
    (few : groupsAfter groups token.kind < maxGroups) (step : Step s token s') :
    s'.Leveled (groupsAfter groups token.kind) := by
  obtain ⟨depth, few', admits⟩ := h
  cases step with
  | opened ha hk =>
    rw [hk] at few ⊢
    refine leveled_openGroup depth few (admits ?_)
    rcases ha with ha | ha <;> simp [ha]
  | negated ha hk =>
    rw [hk] at few ⊢
    refine leveled_openGroup depth few ?_
    exact admits_operate (s := { s with made := s.made + 1 }) (depth ▸ few')
      (by simp [Operator.leansLeft]) _
  | signed negative ha hk =>
    rw [hk]
    exact ⟨depth, few', fun _ => admits (by simp [ha])⟩
  | literal negative number ha hk hr =>
    have hg : groupsAfter groups token.kind = groups := by
      cases hkind : token.kind <;> simp_all [groupsAfter, Token.Kind.isLiteral]
    rw [hg]
    exact ⟨depth, few', fun hn => absurd rfl (hn _)⟩
  | closed operand ha hk =>
    rw [hk]
    refine ⟨?_, Nat.lt_of_le_of_lt (Nat.sub_le _ _) few', fun hn => absurd ha (hn operand)⟩
    change (if s.depth = 0 then (0 : UInt32) else s.depth - 1).toNat = groups - 1
    split
    next hz => simp [← depth, hz]
    next hz =>
      have hle : (1 : UInt32) ≤ s.depth := by
        rw [UInt32.le_iff_toNat_le]
        have hz : s.depth.toNat ≠ 0 := fun h => hz (UInt32.toNat_inj.mp h)
        simp
        omega
      rw [UInt32.toNat_sub_of_le _ _ hle, depth]
      rfl
  | operated operand operator ha hk =>
    rw [hk]
    refine ⟨depth, few', fun _ => admits_operate (depth ▸ few') (fun ht => ?_) operand⟩
    cases operator <;> simp_all [Operator.tier, Operator.leansLeft]

theorem leveled_run {s s' : Stack} {tokens : List Token} {groups : Nat}
    (few : groups + opens tokens < maxGroups) (h : s.Leveled groups)
    (ht : s.takeAll tokens = some s') :
    s'.Leveled (tokens.foldl (fun groups token => groupsAfter groups token.kind) groups) := by
  induction tokens generalizing s groups with
  | nil => exact Option.some.inj ht ▸ h
  | cons token rest ih =>
    obtain ⟨s₁, step, ht⟩ := step_of_takeAll_cons ht
    have hle := groupsAfter_add_opens_le groups token rest
    have few' : groupsAfter groups token.kind + opens rest < maxGroups := by omega
    exact ih few' (leveled_step h (by omega) step) ht

theorem leveled_takeAll {s s' : Stack} {tokens : List Token} {groups : Nat}
    (few : groups + opens tokens < maxGroups) (h : s.Leveled groups)
    (ht : s.takeAll tokens = some s') : ∃ groups, s'.Leveled groups :=
  ⟨_, leveled_run few h ht⟩

/-- The product of a negated group. -/
def negation (s : Stack) : Frame :=
  ⟨s.made + 1, .multiply, .of s.depth .exponential, .leaf s.made (.integer (-1))⟩

theorem frames_negate {s : Stack} (admits : ∀ f ∈ s.frames, f.Admits (.of s.depth .exponential)) :
    s.negate.frames = s.frames ++ [s.negation] := by
  simp only [negate, operate, Tree.pushed, Tree.Candidate.frame]
  rw [kept_eq_self admits, closed_eq_nil admits]
  rfl

end Stack
end Reckoner

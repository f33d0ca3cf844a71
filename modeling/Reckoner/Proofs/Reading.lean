import Reckoner.Proofs.Language
import Reckoner.Proofs.Levels
import Reckoner.Proofs.Meaning

/-! The conventional reading of tokens as an expression over the rational numbers. Main statement:
tokens that end in an operand have a reading once their parentheses are balanced. -/
namespace Reckoner

inductive Expression where
  | number (q : ℚ)
  | apply (operator : Operator) (left right : Expression)

def Expression.meaning : Expression → Meaning
  | number q => ⟨some q, false⟩
  | apply operator left right => left.meaning.combine operator right.meaning

/-- The rational number that digits with a point among them stand for. -/
def Numeral.rational (text : List Char) : ℚ :=
  let places := (text.dropWhile (· != '.')).drop 1
  value (text.takeWhile (· != '.') ++ places) / 10 ^ places.length

namespace Language
open Token (Kind)

inductive Phrase where
  | sum | product | power | operand

/-- The tokens of a phrase and the expression that they are read as. -/
inductive Reads : Phrase → List Token → Expression → Prop
  | literal {token : Token} (literal : token.kind.isLiteral) :
      Reads .operand [token] (.number (Numeral.rational token.text.toList))
  | signed {sign token : Token} (negative : Bool)
      (hs : sign.kind = .operator (if negative then .subtract else .add))
      (literal : token.kind.isLiteral) :
      Reads .operand [sign, token]
        (.number ((if negative then -1 else 1) * Numeral.rational token.text.toList))
  | group {opening closing : Token} {tokens : List Token} {e : Expression}
      (ho : opening.kind = .openParen) (h : Reads .sum tokens e)
      (hc : closing.kind = .closeParen) : Reads .operand (opening :: tokens ++ [closing]) e
  | plus {sign opening : Token} {tokens : List Token} {e : Expression}
      (hs : sign.kind = .operator .add) (ho : opening.kind = .openParen)
      (h : Reads .operand (opening :: tokens) e) : Reads .operand (sign :: opening :: tokens) e
  /-- A minus sign before a group applies to the group with its exponents. -/
  | negated {sign opening : Token} {tokens : List Token} {e : Expression}
      (hs : sign.kind = .operator .subtract) (ho : opening.kind = .openParen)
      (h : Reads .power (opening :: tokens) e) :
      Reads .power (sign :: opening :: tokens) (.apply .multiply (.number (-1)) e)
  | operand {tokens : List Token} {e : Expression} (h : Reads .operand tokens e) :
      Reads .power tokens e
  | raise {caret : Token} {before after : List Token} {a b : Expression}
      (ha : Reads .operand before a) (hk : caret.kind = .operator .power)
      (hb : Reads .power after b) : Reads .power (before ++ caret :: after) (.apply .power a b)
  | power {tokens : List Token} {e : Expression} (h : Reads .power tokens e) :
      Reads .product tokens e
  | scale {token : Token} {before after : List Token} {a b : Expression} {operator : Operator}
      (ha : Reads .product before a) (hk : token.kind = .operator operator)
      (tier : operator.tier = .multiplicative) (hb : Reads .power after b) :
      Reads .product (before ++ token :: after) (.apply operator a b)
  | product {tokens : List Token} {e : Expression} (h : Reads .product tokens e) :
      Reads .sum tokens e
  | combine {token : Token} {before after : List Token} {a b : Expression} {operator : Operator}
      (ha : Reads .sum before a) (hk : token.kind = .operator operator)
      (tier : operator.tier = .additive) (hb : Reads .product after b) :
      Reads .sum (before ++ token :: after) (.apply operator a b)

def closing : Token := ⟨.closeParen, ")", 0⟩

/-- The zero that stands for a missing last operand. -/
def zero : Token := ⟨.integer, "0", 0⟩

/-- The tokens without closing parentheses that close no group, and with those that are missing. -/
def balanced (groups : Nat) : List Token → List Token
  | [] => List.replicate groups closing
  | token :: rest =>
    if token.kind = .closeParen ∧ groups = 0 then balanced 0 rest
    else token :: balanced (groupsAfter groups token.kind) rest

def supplied (tokens : List Token) : List Token :=
  tokens ++ if (tokens.getLast?.map Token.kind).any endsOperand then [] else [zero]

/-- The tokens as they are meant. -/
def completed (tokens : List Token) : List Token :=
  balanced 0 (supplied tokens)

theorem opens_balanced (groups : Nat) (tokens : List Token) :
    opens (balanced groups tokens) = opens tokens := by
  induction tokens generalizing groups with
  | nil =>
    rw [balanced, opens, List.countP_replicate]
    rfl
  | cons token rest ih =>
    rw [balanced, opens_cons]
    split
    next h => rw [ih, h.1, if_neg (by decide), Nat.add_zero]
    next => rw [opens_cons, ih]

theorem opens_supplied (tokens : List Token) : opens (supplied tokens) = opens tokens := by
  rw [supplied, opens_append]
  split <;> rfl

theorem opens_completed (tokens : List Token) : opens (completed tokens) = opens tokens := by
  rw [completed, opens_balanced, opens_supplied]

/-- Whether a phrase can go on with this operator. -/
def Phrase.joins : Phrase → Operator → Prop
  | sum, _ => True
  | product, operator => operator.tier ≠ .additive
  | power, operator => operator.tier = .exponential
  | operand, _ => False

theorem eq_power_of_tier {operator : Operator} (h : operator.tier = .exponential) :
    operator = .power := by
  cases operator <;> simp_all [Operator.tier]

theorem Reads.extend {p : Phrase} {tokens after : List Token} {e b : Expression} {token : Token}
    {operator : Operator} (h : Reads p tokens e) (hk : token.kind = .operator operator)
    (hb : Reads .power after b) (joins : p.joins operator) :
    ∃ e, Reads p (tokens ++ token :: after) e := by
  induction h with
  | literal | signed | group | plus => exact joins.elim
  | negated hs ho h ih =>
    obtain ⟨e, ih⟩ := ih joins
    exact ⟨_, .negated hs ho ih⟩
  | operand h ih =>
    obtain rfl := eq_power_of_tier joins
    exact ⟨_, .raise h hk hb⟩
  | raise ha hk' hb' iha ihb =>
    obtain ⟨e, ih⟩ := ihb joins
    rw [List.append_assoc]
    exact ⟨_, .raise ha hk' ih⟩
  | power h ih =>
    cases ht : operator.tier with
    | additive => exact absurd ht joins
    | multiplicative => exact ⟨_, .scale (.power h) hk ht hb⟩
    | exponential =>
      obtain ⟨e, ih⟩ := ih ht
      exact ⟨e, .power ih⟩
  | scale ha hk' tier hb' iha ihb =>
    cases ht : operator.tier with
    | additive => exact absurd ht joins
    | multiplicative => exact ⟨_, .scale (.scale ha hk' tier hb') hk ht hb⟩
    | exponential =>
      obtain ⟨e, ih⟩ := ihb ht
      rw [List.append_assoc]
      exact ⟨_, .scale ha hk' tier ih⟩
  | product h ih =>
    by_cases ht : operator.tier = .additive
    · exact ⟨_, .combine (.product h) hk ht (.power hb)⟩
    · obtain ⟨e, ih⟩ := ih ht
      exact ⟨e, .product ih⟩
  | combine ha hk' tier hb' iha ihb =>
    by_cases ht : operator.tier = .additive
    · exact ⟨_, .combine (.combine ha hk' tier hb') hk ht (.power hb)⟩
    · obtain ⟨e, ih⟩ := ihb ht
      rw [List.append_assoc]
      exact ⟨_, .combine ha hk' tier ih⟩

/-- Tokens behind which an operand makes a sum. -/
def Head (tokens : List Token) : Prop :=
  ∀ operand e, Reads .power operand e → ∃ e, Reads .sum (tokens ++ operand) e

theorem head_nil : Head [] :=
  fun _ e h => ⟨e, .product (.power h)⟩

theorem head_operator {tokens : List Token} {e : Expression} {token : Token} {operator : Operator}
    (h : Reads .sum tokens e) (hk : token.kind = .operator operator) : Head (tokens ++ [token]) := by
  intro operand b hb
  rw [List.append_assoc]
  exact h.extend hk hb trivial

/-- A sign before an operand, or none. -/
inductive Signs : List Token → Prop
  | none : Signs []
  | sign {sign : Token} (negative : Bool)
      (hs : sign.kind = .operator (if negative then .subtract else .add)) : Signs [sign]

theorem exists_reads_group {signs tokens : List Token} {opening closing : Token} {e : Expression}
    (hs : Signs signs) (ho : opening.kind = .openParen) (h : Reads .sum tokens e)
    (hc : closing.kind = .closeParen) :
    ∃ e, Reads .power (signs ++ opening :: tokens ++ [closing]) e := by
  have group := Reads.group ho h hc
  cases hs with
  | none => exact ⟨e, .operand group⟩
  | sign negative hs =>
    cases negative with
    | false => exact ⟨e, .operand (.plus hs ho group)⟩
    | true => exact ⟨_, .negated hs ho (.operand group)⟩

theorem exists_reads_literal {signs : List Token} {token : Token} (hs : Signs signs)
    (literal : token.kind.isLiteral) : ∃ e, Reads .power (signs ++ [token]) e := by
  cases hs with
  | none => exact ⟨_, .operand (.literal literal)⟩
  | sign negative hs => exact ⟨_, .operand (.signed negative hs literal)⟩

/-- Tokens that open this many groups, each behind a head. -/
inductive Outer : Nat → List Token → Prop
  | nil : Outer 0 []
  | group {groups : Nat} {before head signs : List Token} {opening : Token}
      (outer : Outer groups before) (hh : Head head) (hs : Signs signs)
      (ho : opening.kind = .openParen) :
      Outer (groups + 1) (before ++ head ++ signs ++ [opening])

theorem Outer.close {groups : Nat} {before tokens : List Token} {closing : Token} {e : Expression}
    (outer : Outer (groups + 1) before) (h : Reads .sum tokens e)
    (hc : closing.kind = .closeParen) :
    ∃ before' tokens' e, Outer groups before' ∧ Reads .sum tokens' e ∧
      before ++ tokens ++ [closing] = before' ++ tokens' := by
  cases outer with
  | group outer hh hs ho =>
    obtain ⟨_, hg⟩ := exists_reads_group hs ho h hc
    obtain ⟨e, hsum⟩ := hh _ _ hg
    exact ⟨_, _, e, outer, hsum, by simp⟩

/-- What the tokens before a phase amount to. -/
def Stands (tokens : List Token) (groups : Nat) : Phase → Prop
  | .operand _ => ∃ before head, tokens = before ++ head ∧ Outer groups before ∧ Head head
  | .signed negative _ => ∃ before head sign, tokens = before ++ head ++ [sign] ∧
      Outer groups before ∧ Head head ∧
      sign.kind = .operator (if negative then .subtract else .add)
  | .operator => ∃ before sum e, tokens = before ++ sum ∧ Outer groups before ∧ Reads .sum sum e
  | .ended => False

theorem stands_literal {before head signs : List Token} {token : Token} {groups : Nat}
    (outer : Outer groups before) (hh : Head head) (hs : Signs signs)
    (literal : token.kind.isLiteral) :
    Stands (before ++ head ++ signs ++ [token]) (groupsAfter groups token.kind) .operator := by
  have hg : groupsAfter groups token.kind = groups := by
    cases hk : token.kind <;> simp_all [groupsAfter, Kind.isLiteral]
  obtain ⟨_, hp⟩ := exists_reads_literal hs literal
  obtain ⟨e, hsum⟩ := hh _ _ hp
  rw [hg]
  exact ⟨before, _, e, by simp, outer, hsum⟩

theorem stands_next {tokens : List Token} {groups : Nat} {p q : Phase} {token : Token}
    (h : Stands tokens groups p) (hn : p.next token.kind = some q)
    (inner : token.kind ≠ .endOfInput) (hg : token.kind = .closeParen → groups ≠ 0) :
    Stands (tokens ++ [token]) (groupsAfter groups token.kind) q := by
  unfold Phase.next at hn
  split at hn <;> simp only [Option.some.injEq, reduceCtorEq] at hn <;> subst hn
  case h_1 started hk =>
    obtain ⟨before, head, rfl, outer, hh⟩ := h
    rw [hk]
    exact ⟨_, [], by simp, .group outer hh .none hk, head_nil⟩
  case h_2 started hk =>
    obtain ⟨before, head, rfl, outer, hh⟩ := h
    rw [hk]
    exact ⟨before, head, token, rfl, outer, hh, hk⟩
  case h_3 started hk =>
    obtain ⟨before, head, rfl, outer, hh⟩ := h
    rw [hk]
    exact ⟨before, head, token, rfl, outer, hh, hk⟩
  case h_4 hk | h_5 hk =>
    obtain ⟨before, head, rfl, outer, hh⟩ := h
    have hl := stands_literal outer hh .none (hk ▸ rfl : token.kind.isLiteral)
    rwa [List.append_nil] at hl
  case h_6 hk => exact absurd hk inner
  case h_7 negative started hk =>
    obtain ⟨before, head, sign, rfl, outer, hh, hs⟩ := h
    rw [hk]
    exact ⟨_, [], by simp, .group outer hh (.sign negative hs) hk, head_nil⟩
  case h_8 negative _ hk | h_9 negative _ hk =>
    obtain ⟨before, head, sign, rfl, outer, hh, hs⟩ := h
    exact stands_literal outer hh (.sign negative hs) (by rw [hk]; rfl)
  case h_10 hk =>
    obtain ⟨before, sum, e, rfl, outer, hsum⟩ := h
    obtain ⟨groups, rfl⟩ := Nat.exists_eq_succ_of_ne_zero (hg hk)
    rw [hk]
    obtain ⟨before', tokens', e, outer, hsum, heq⟩ := outer.close hsum hk
    exact ⟨before', tokens', e, heq, outer, hsum⟩
  case h_11 operator hk =>
    obtain ⟨before, sum, e, rfl, outer, hsum⟩ := h
    rw [hk]
    exact ⟨before, sum ++ [token], by simp, outer, head_operator hsum hk⟩
  case h_12 hk => exact absurd hk inner

/-- The missing closing parentheses make one sum of it all. -/
theorem exists_reads_closings {before sum : List Token} {groups : Nat} {e : Expression}
    (outer : Outer groups before) (h : Reads .sum sum e) :
    ∃ e, Reads .sum (before ++ sum ++ List.replicate groups closing) e := by
  induction groups generalizing before sum e with
  | zero =>
    cases outer
    exact ⟨e, by simpa using h⟩
  | succ groups ih =>
    obtain ⟨before', sum', e, outer, h, heq⟩ := outer.close h (rfl : closing.kind = .closeParen)
    obtain ⟨e, ih⟩ := ih outer h
    refine ⟨e, ?_⟩
    rw [List.replicate_succ, List.append_cons, heq]
    exact ih

theorem exists_reads_balanced {before tokens : List Token} {groups : Nat} {p : Phase}
    (h : Stands before groups p) (inner : ∀ token ∈ tokens, token.kind ≠ .endOfInput)
    (hr : p.run (tokens.map Token.kind) = some .operator) :
    ∃ e, Reads .sum (before ++ balanced groups tokens) e := by
  induction tokens generalizing before groups p with
  | nil =>
    obtain rfl := Option.some.inj hr
    obtain ⟨before, sum, e, rfl, outer, hsum⟩ := h
    exact exists_reads_closings outer hsum
  | cons token rest ih =>
    obtain ⟨q, hn, hr⟩ := Phase.next_of_run_cons hr
    have inner' := fun t ht => inner t (List.mem_cons_of_mem _ ht)
    rw [balanced]
    split
    next hc =>
      -- the parenthesis is dropped, and the phase stays the same
      obtain ⟨hk, rfl⟩ := hc
      have hp : p = .operator ∧ q = .operator := by
        cases p <;> simp_all [Phase.next]
      rw [hp.1] at h
      rw [hp.2] at hr
      exact ih h inner' hr
    next hc =>
      rw [not_and] at hc
      have hs := stands_next h hn (inner token (by simp)) hc
      obtain ⟨e, ih⟩ := ih hs inner' hr
      exact ⟨e, by rwa [List.append_cons]⟩

theorem stands_start : Stands [] 0 (.operand false) :=
  ⟨[], [], rfl, .nil, head_nil⟩

end Language
end Reckoner

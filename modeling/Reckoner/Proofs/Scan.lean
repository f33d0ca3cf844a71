import Reckoner.Numeral.Reading
import Reckoner.Scanner

/-! The spelling of scanned tokens. Main statement: a literal that the scanner yields is spelled so
that it can be read, and the end of input comes last and only once. -/
namespace Reckoner

/-- Digits, with one point among them if `pointed`. -/
def Numeral.Spelled (pointed : Bool) (text : List Char) : Prop :=
  if pointed then ∃ whole places, text = whole ++ '.' :: places ∧
    whole.all Char.isDigit ∧ places.all Char.isDigit
  else text.all Char.isDigit

namespace Numeral

theorem exists_digit_of_isDigit {cluster : String} (h : isDigit cluster) :
    ∃ c, cluster.toList = [c] ∧ c.isDigit := by
  unfold isDigit at h
  split at h
  · exact ⟨_, ‹_›, h⟩
  · contradiction

theorem Spelled.digit {pointed : Bool} {text : String} {cluster : String}
    (h : Spelled pointed text.toList) (hd : isDigit cluster) :
    Spelled pointed (text ++ cluster).toList := by
  obtain ⟨c, hc, hd⟩ := exists_digit_of_isDigit hd
  rw [String.toList_append, hc]
  cases pointed with
  | false => simp_all [Spelled]
  | true =>
    obtain ⟨whole, places, ht, hw, hp⟩ := h
    exact ⟨whole, places ++ [c], by simp [ht], hw, by simp_all⟩

theorem Spelled.point {text : String} (h : Spelled false text.toList) :
    Spelled true (text.push '.').toList :=
  ⟨text.toList, [], by simp, h, rfl⟩

theorem readInteger?_isSome {text : List Char} (h : Spelled false text) (hne : text ≠ [])
    (negative : Bool) : (readInteger? negative text).isSome := by
  simp only [Spelled, Bool.false_eq_true, if_false] at h
  simp only [readInteger?, List.isEmpty_eq_false_iff.mpr hne, h, Bool.not_true, Bool.or_false,
    Bool.false_eq_true, if_false]
  split <;> rfl

theorem ne_point_of_isDigit {c : Char} (h : c.isDigit) : (c != '.') = true := by
  rw [bne_iff_ne]
  rintro rfl
  contradiction

theorem readDecimal?_isSome {text : List Char} (h : Spelled true text) (hne : text ≠ ['.'])
    (negative : Bool) : (readDecimal? negative text).isSome := by
  obtain ⟨whole, places, rfl, hw, hp⟩ := h
  have hpass : ∀ c ∈ whole, (c != '.') = true := fun c hc =>
    ne_point_of_isDigit (List.all_eq_true.mp hw c hc)
  have htake : (whole ++ '.' :: places).takeWhile (· != '.') = whole := by
    rw [List.takeWhile_append_of_pos hpass, List.takeWhile_cons]
    simp
  have hdrop : (whole ++ '.' :: places).dropWhile (· != '.') = '.' :: places := by
    rw [List.dropWhile_append_of_pos hpass, List.dropWhile_cons]
    simp
  have hall : (whole ++ places).isEmpty = false := by
    rw [List.isEmpty_eq_false_iff]
    intro hnil
    obtain ⟨rfl, rfl⟩ := List.append_eq_nil_iff.mp hnil
    exact hne rfl
  simp [readDecimal?, htake, hdrop, hall, hw, hp]

end Numeral

/-- A literal can be read, also behind a minus sign. -/
def Token.Readable (token : Token) : Prop :=
  token.kind.isLiteral → ∀ negative, (Numeral.read? negative token).isSome

namespace Scanner

theorem numeral_spelled (s : Scanner) (text : String) (pointed : Bool)
    (h : Numeral.Spelled pointed text.toList) {result : String × Bool}
    (hr : (s.numeral text pointed).1 = some result) :
    text.toList <+: result.1.toList ∧ Numeral.Spelled result.2 result.1.toList := by
  fun_induction numeral s text pointed with
  | case1 | case5 =>
    obtain rfl := Option.some.inj hr
    exact ⟨List.prefix_rfl, h⟩
  | case2 s text pointed c _ _ hd ih =>
    obtain ⟨hp, hs⟩ := ih (h.digit hd) hr
    rw [String.toList_append] at hp
    exact ⟨(List.prefix_append _ _).trans hp, hs⟩
  | case3 => contradiction
  | case4 s text pointed _ _ _ _ _ hn ih =>
    rw [Bool.not_eq_true] at hn
    subst hn
    obtain ⟨hp, hs⟩ := ih h.point hr
    rw [String.toList_push] at hp
    exact ⟨(List.prefix_append _ _).trans hp, hs⟩

theorem numeral_ne_empty {s : Scanner} {c : String} {rest : List String}
    (here : s.rest = c :: rest) (starts : s.startsNumeral c) {result : String × Bool}
    (hr : (s.numeral "" false).1 = some result) : result.1.toList ≠ [] := by
  have hempty : Numeral.Spelled false "".toList := rfl
  rw [startsNumeral, Bool.or_eq_true] at starts
  unfold numeral at hr
  split at hr
  · simp_all
  · rename_i c' _ hc
    obtain rfl : c = c' := by simp_all
    by_cases hd : Numeral.isDigit c
    · rw [if_pos hd] at hr
      obtain ⟨hp, -⟩ := numeral_spelled _ _ _ (hempty.digit hd) hr
      obtain ⟨d, hd, -⟩ := Numeral.exists_digit_of_isDigit hd
      rw [String.toList_append, hd] at hp
      exact fun h => by simp [h] at hp
    · rw [if_neg hd, if_pos (starts.resolve_left hd)] at hr
      simp only [Bool.false_eq_true, if_false] at hr
      obtain ⟨hp, -⟩ := numeral_spelled _ _ _ hempty.point hr
      rw [String.toList_push] at hp
      exact fun h => by simp [h] at hp

theorem scanNumeral_spelled {s : Scanner} {c : String} {rest : List String}
    (here : s.rest = c :: rest) (starts : s.startsNumeral c) {token : Token}
    (h : s.scanNumeral.1 = .ok token) :
    token.text.toList ≠ [] ∧ token.text.toList ≠ ['.'] ∧
      (token.kind = .integer ∧ Numeral.Spelled false token.text.toList ∨
        token.kind = .decimal ∧ Numeral.Spelled true token.text.toList) := by
  unfold scanNumeral at h
  split at h
  · contradiction
  next text pointed stop hn =>
    have hr : (s.numeral "" false).1 = some (text, pointed) := by rw [hn]
    split at h
    · contradiction
    next hpoint =>
      obtain rfl := Except.ok.inj h
      refine ⟨numeral_ne_empty here starts hr, ?_, ?_⟩
      · intro hl
        exact hpoint (String.toList_inj.mp hl)
      · have hs := (numeral_spelled s "" false rfl hr).2
        cases pointed with
        | false => exact .inl ⟨rfl, hs⟩
        | true => exact .inr ⟨rfl, hs⟩

theorem isLiteral_ofCluster (cluster : String) :
    (Token.Kind.ofCluster cluster).isLiteral = false := by
  unfold Token.Kind.ofCluster
  split <;> rfl

theorem spelled_next {s : Scanner} {token : Token} (h : s.next.1 = .ok token)
    (literal : token.kind.isLiteral) :
    token.text.toList ≠ [] ∧ token.text.toList ≠ ['.'] ∧
      (token.kind = .integer ∧ Numeral.Spelled false token.text.toList ∨
        token.kind = .decimal ∧ Numeral.Spelled true token.text.toList) := by
  unfold next tokenHere at h
  split at h
  · obtain rfl := Except.ok.inj h
    contradiction
  next c rest here =>
    split at h
    next starts => exact scanNumeral_spelled here starts h
    · split at h
      · obtain rfl := Except.ok.inj h
        simp [isLiteral_ofCluster] at literal
      · contradiction

theorem readable_next {s : Scanner} {token : Token} (h : s.next.1 = .ok token) :
    token.Readable := by
  intro literal negative
  obtain ⟨hne, hpoint, ⟨hk, hs⟩ | ⟨hk, hs⟩⟩ := spelled_next h literal
  · simpa only [Numeral.read?, hk] using Numeral.readInteger?_isSome hs hne negative
  · simpa only [Numeral.read?, hk] using Numeral.readDecimal?_isSome hs hpoint negative

theorem forall_mem_scan {P : Token → Prop}
    (h : ∀ (s : Scanner) (token : Token), s.next.1 = .ok token → token.kind ≠ .endOfInput → P token)
    (s : Scanner) : ∀ token ∈ s.scan.1, P token := by
  fun_induction scan s with
  | case1 => simp
  | case2 => simp
  | case3 s token stop hn hbefore tokens last hs ih =>
    rw [hs] at ih
    intro t ht
    rcases List.mem_cons.mp ht with rfl | ht
    · exact h s t (by rw [hn]) hbefore
    · exact ih t ht

theorem readable_of_mem_scan (s : Scanner) : ∀ token ∈ s.scan.1, token.Readable :=
  forall_mem_scan (fun _ _ h _ => readable_next h) s

theorem kind_ne_endOfInput_of_mem_scan (s : Scanner) :
    ∀ token ∈ s.scan.1, token.kind ≠ .endOfInput :=
  forall_mem_scan (fun _ _ _ h => h) s

theorem kind_last_scan (s : Scanner) {token : Token} (h : s.scan.2.1 = .ok token) :
    token.kind = .endOfInput := by
  fun_induction scan s with
  | case1 => contradiction
  | case2 s token' stop _ hend =>
    obtain rfl := Except.ok.inj h
    exact hend
  | case3 s _ stop _ _ tokens last hs ih =>
    rw [hs] at ih
    exact ih h

end Scanner
end Reckoner

import Reckoner.Proofs.Ascii
import Reckoner.Proofs.Locale
import Reckoner.Proofs.Passage

/-! Sources that go on. Main statements: what is scanned of a source to its end is also scanned where
more clusters come behind it, unless they go on with its last numeral; digits, symbols and blanks are
scanned one behind the other; and with the standard symbols only ASCII is scanned to the end. -/
namespace Reckoner

namespace Numeral

@[simp] theorem isDigit_singleton (c : Char) : isDigit (String.singleton c) = c.isDigit := by
  simp [isDigit]

theorem isGrouping_of_isDigit {c : String} (h : isDigit c = true) :
    Symbols.standard.isGrouping c = false := by
  rw [← Bool.not_eq_true]
  intro grouping
  rw [isDigit_standard c (mem_of_standard (.inl grouping))] at h
  contradiction

namespace Symbols

/-- The first of the clusters is not left out. -/
def Keeps (symbols : Symbols) (clusters : List String) : Prop :=
  ∀ c ∈ clusters.head?, symbols.drops c = false

/-- No numeral goes on with the first of the clusters. -/
def Ends (symbols : Symbols) (clusters : List String) : Prop :=
  ∀ c ∈ clusters.head?, isDigit c = false ∧ symbols.isPoint c = false ∧ symbols.isGrouping c = false

theorem ends_nil (symbols : Symbols) : symbols.Ends [] := fun _ mem => absurd mem (by simp)

theorem drops_digit {symbols : Symbols} {c : String} (digit : isDigit c = true)
    (own : symbols.isGrouping c = false) : symbols.drops c = false := by
  rw [drops, isSpace_of_isDigit digit, own]
  rfl

end Symbols
end Numeral

namespace Scanner

theorem settled_of_keeps {s : Scanner} (h : s.symbols.Keeps s.rest) : s.Settled :=
  fun c _ here => h c (by rw [here]; rfl)

/-- What a scan comes to that finds these tokens before the scanner goes on. -/
def scanBehind (s : Scanner) (tokens : List Token) : List Token × Except Error Token × Scanner :=
  (tokens ++ s.scan.1, s.scan.2)

section Scan
variable {s t stop : Scanner} {token : Token}

theorem scanBehind_of_scan {tokens : List Token} (h : s.scan = t.scanBehind tokens)
    (before : List Token) : s.scanBehind before = t.scanBehind (before ++ tokens) := by
  rw [scanBehind, h, scanBehind, scanBehind, List.append_assoc]

theorem scan_of_nil (here : s.rest = []) :
    s.scan = ([], .ok ⟨.endOfInput, "", s.cursor⟩, s) := by
  have settled : s.Settled := by simp [Settled, here]
  have found : s.next = (.ok ⟨.endOfInput, "", s.cursor⟩, s) := by
    rw [next, skip_eq_self settled, tokenHere, here]
  rw [scan_of_next, found]
  rfl

theorem scan_of_end {tokens : List Token} (h : s.scan = t.scanBehind tokens) (here : t.rest = []) :
    s.scan.1 = tokens ∧ ∃ last, s.scan.2.1 = .ok last := by
  rw [h, scanBehind, scan_of_nil here]
  exact ⟨List.append_nil tokens, _, rfl⟩

theorem scan_of_token (h : s.next = (.ok token, stop)) (before : token.kind ≠ .endOfInput) :
    s.scan = stop.scanBehind [token] := by
  rw [scan_of_next, h]
  exact if_neg before

theorem scan_skip (s : Scanner) : s.skip.scan = s.scan := by
  rw [scan_of_next, scan_of_next s, next, skip_eq_self s.settled_skip]
  rfl

end Scan

/-- The scanner in a source that goes on with these clusters. -/
def followed (s : Scanner) (source : String) (more : List String) : Scanner :=
  { s with source := source, rest := s.rest ++ more }

section Followed
variable {s stop : Scanner} {source c : String} {more rest : List String} {token : Token}

@[simp] theorem symbols_followed : (s.followed source more).symbols = s.symbols := rfl

theorem rest_followed (here : s.rest = c :: rest) :
    (s.followed source more).rest = c :: (rest ++ more) := by
  rw [followed, here, List.cons_append]

theorem rest_followed_nil (here : s.rest = []) : (s.followed source more).rest = more := by
  rw [followed, here, List.nil_append]

theorem skip_followed (keeps : s.symbols.Keeps more) :
    (s.followed source more).skip = s.skip.followed source more := by
  have stays : more.takeWhile s.skips = [] ∧ more.dropWhile s.skips = more := by
    cases more with
    | nil => exact ⟨rfl, rfl⟩
    | cons c more =>
      have kept : ¬ s.skips c = true := Bool.eq_false_iff.mp (keeps c rfl)
      exact ⟨List.takeWhile_cons_of_neg kept, List.dropWhile_cons_of_neg kept⟩
  have taken : (s.rest ++ more).takeWhile s.skips = s.rest.takeWhile s.skips := by
    rw [List.takeWhile_append, stays.1, List.append_nil]
    split
    next all => exact ((List.takeWhile_prefix s.skips).eq_of_length all).symm
    next => rfl
  have left : (s.rest ++ more).dropWhile s.skips = s.rest.dropWhile s.skips ++ more := by
    rw [List.dropWhile_append, stays.2]
    split
    next none => rw [List.isEmpty_iff.mp none, List.nil_append]
    next => rfl
  change Scanner.mk source s.symbols ((s.rest ++ more).dropWhile s.skips)
    (s.cursor + ((s.rest ++ more).takeWhile s.skips).length) = _
  rw [taken, left]
  rfl

theorem skipGroup_followed (keeps : s.symbols.Keeps more) :
    (s.followed source more).skipGroup = s.skipGroup.followed source more := by
  cases here : s.rest with
  | nil =>
    have settled : (s.followed source more).Settled :=
      settled_of_keeps (by rwa [rest_followed_nil here])
    have settled' : s.Settled := by simp [Settled, here]
    rw [skipGroup_eq_self settled.ungrouped, skipGroup_eq_self settled'.ungrouped]
  | cons c rest =>
    unfold skipGroup
    rw [rest_followed here, here, symbols_followed]
    dsimp only
    split
    · exact skip_followed keeps
    · rfl

theorem advance_followed (here : s.rest = c :: rest) :
    (s.followed source more).advance = s.advance.followed source more := by
  simp [advance, followed, here]

theorem onward_followed (source : String) (here : s.rest = c :: rest) (keeps : s.symbols.Keeps more) :
    (s.followed source more).advance.skipGroup = s.advance.skipGroup.followed source more ∧
      s.advance.skipGroup.symbols = s.symbols := by
  rw [advance_followed here, skipGroup_followed (by rwa [symbols_advance])]
  exact ⟨rfl, s.advance.passes_skipGroup.symbols.trans s.symbols_advance⟩

/-- A numeral is read alike where the source goes on behind it, but not with the numeral. -/
theorem numeral_followed (source : String) (keeps : s.symbols.Keeps more) (text : String)
    (pointed : Bool) (ends : (s.numeral text pointed).2.rest = [] → s.symbols.Ends more) :
    (s.followed source more).numeral text pointed =
      ((s.numeral text pointed).1, (s.numeral text pointed).2.followed source more) := by
  fun_induction numeral s text pointed with
  | case1 s text pointed here =>
    -- Only where nothing is left does it matter how the source goes on.
    have ends := ends here
    cases more with
    | nil => exact numeral_of_nil (rest_followed_nil here) text pointed
    | cons c more =>
      obtain ⟨digit, point, -⟩ := ends c rfl
      rw [numeral_of_cons (rest_followed_nil here), digit, symbols_followed, point,
        if_neg Bool.false_ne_true, if_neg Bool.false_ne_true]
  | case2 s text pointed c rest here digit ih =>
    obtain ⟨onward, same⟩ := onward_followed source here keeps
    rw [same] at ih
    rw [numeral_of_cons (rest_followed here), if_pos digit, onward, ih keeps ends]
  | case3 s text c rest here digit point =>
    rw [numeral_of_cons (rest_followed here), if_neg digit, symbols_followed, if_pos point,
      if_pos rfl]
  | case4 s text pointed c rest here digit point unpointed ih =>
    obtain ⟨onward, same⟩ := onward_followed source here keeps
    rw [same] at ih
    rw [numeral_of_cons (rest_followed here), if_neg digit, symbols_followed, if_pos point,
      if_neg unpointed, onward, ih keeps ends]
  | case5 s text pointed c rest here digit point =>
    rw [numeral_of_cons (rest_followed here), if_neg digit, symbols_followed, if_neg point]

section Token
variable (keeps : s.symbols.Keeps more)
  (ends : stop.rest = [] → token.kind.isLiteral → s.symbols.Ends more)
include keeps ends

theorem scanNumeral_followed (h : s.scanNumeral = (.ok token, stop)) :
    (s.followed source more).scanNumeral = (.ok token, stop.followed source more) := by
  have read := numeral_followed source keeps "" false
  unfold scanNumeral at h ⊢
  generalize s.numeral "" false = answer at h read
  obtain ⟨_ | ⟨text, pointed⟩, reached⟩ := answer
  · simp at h
  dsimp only at h read
  split at h
  · simp at h
  next digits =>
    obtain ⟨found, rfl⟩ := Prod.mk.inj h
    obtain rfl := Except.ok.inj found
    rw [read fun last => ends last (by cases pointed <;> rfl)]
    dsimp only
    rw [if_neg digits]
    rfl

theorem tokenHere_followed (h : s.tokenHere = (.ok token, stop))
    (before : token.kind ≠ .endOfInput) :
    (s.followed source more).tokenHere = (.ok token, stop.followed source more) := by
  unfold tokenHere at h ⊢
  split at h
  · obtain rfl := Except.ok.inj (Prod.mk.inj h).1
    contradiction
  next c rest here =>
    rw [rest_followed here]
    change (if s.startsNumeral c then _ else _) = _
    split at h
    next starts =>
      rw [if_pos starts]
      exact scanNumeral_followed keeps ends h
    next other =>
      rw [if_neg other]
      split at h
      next ascii =>
        obtain ⟨found, rfl⟩ := Prod.mk.inj h
        rw [if_pos ascii, advance_followed here]
        exact congrArg (·, _) found
      next => simp at h

theorem next_followed (h : s.next = (.ok token, stop)) (before : token.kind ≠ .endOfInput) :
    (s.followed source more).next = (.ok token, stop.followed source more) := by
  rw [next, skip_followed keeps]
  exact tokenHere_followed keeps ends h before

end Token

theorem scan_followed {last : Token} (keeps : s.symbols.Keeps more)
    (ends : s.scan.1.getLast?.any (·.kind.isLiteral) → s.symbols.Ends more)
    (h : s.scan.2.1 = .ok last) :
    ∃ cursor, (s.followed source more).scan =
      (Scanner.mk source s.symbols more cursor).scanBehind s.scan.1 := by
  fun_induction scan s with
  | case1 => contradiction
  | case2 s token stop hn ended =>
    obtain ⟨-, none⟩ := end_of_next hn ended
    refine ⟨s.skip.cursor, ?_⟩
    rw [← scan_skip, skip_followed keeps, followed, none]
    rfl
  | case3 s token stop hn before tokens others hs ih =>
    obtain ⟨_, passed⟩ := s.exists_passes_next
    rw [hn] at passed
    rw [hs, passed.symbols] at ih
    -- If nothing is left behind this token, it is the last one.
    have here : stop.rest = [] → token.kind.isLiteral → s.symbols.Ends more := by
      intro none literal
      rw [scan_of_nil none] at hs
      obtain ⟨rfl, -⟩ := Prod.mk.inj hs
      exact ends literal
    obtain ⟨cursor, behind⟩ := ih keeps (fun literal => ends (by
      cases tokens with
      | nil => contradiction
      | cons => exact literal)) h
    refine ⟨cursor, ?_⟩
    rw [scan_of_token (next_followed keeps here hn before) before, scanBehind_of_scan behind]
    rfl

end Followed

section Forward
variable (source : String) {symbols : Numeral.Symbols} {c : String} {rest : List String} (cursor : Nat)

theorem scan_symbol (kept : symbols.drops c = false) (other : Numeral.isDigit c = false)
    (point : symbols.isPoint c = false) (ascii : isAscii c) :
    (Scanner.mk source symbols (c :: rest) cursor).scan =
      (Scanner.mk source symbols rest (cursor + 1)).scanBehind [⟨.ofCluster c, c, cursor⟩] := by
  have settled : (Scanner.mk source symbols (c :: rest) cursor).Settled :=
    settled_of_keeps (by simpa [Numeral.Symbols.Keeps] using kept)
  refine scan_of_token ?_ (kind_ofCluster_ne_endOfInput c)
  rw [next, skip_eq_self settled, tokenHere]
  simp [startsNumeral, other, point, ascii, advance]

theorem scan_blank (dropped : symbols.drops c = true) :
    (Scanner.mk source symbols (c :: rest) cursor).scan =
      (Scanner.mk source symbols rest (cursor + 1)).scan := by
  have skips : (Scanner.mk source symbols (c :: rest) cursor).skips c = true := dropped
  have same : (Scanner.mk source symbols (c :: rest) cursor).skip =
      (Scanner.mk source symbols rest (cursor + 1)).skip := by
    simp only [skip, List.dropWhile_cons_of_pos skips, List.takeWhile_cons_of_pos skips,
      List.length_cons, Nat.add_assoc, Nat.add_comm 1]
    rfl
  rw [← scan_skip, same, scan_skip]

section Digits
variable {digits : List Char} (all : ∀ d ∈ digits, d.isDigit)
  (own : ∀ c, Numeral.isDigit c = true → symbols.isGrouping c = false) (ends : symbols.Ends rest)
include all own ends

theorem ungrouped_digits :
    (Scanner.mk source symbols (digits.map String.singleton ++ rest) cursor).Ungrouped := by
  intro c more here
  cases digits with
  | nil => exact (ends c (congrArg List.head? here)).2.2
  | cons d digits =>
    obtain ⟨rfl, -⟩ := List.cons.inj here
    exact own _ (by rw [Numeral.isDigit_singleton, all d List.mem_cons_self])

theorem numeral_digits (text : String) :
    (Scanner.mk source symbols (digits.map String.singleton ++ rest) cursor).numeral text false =
      (some (text ++ String.ofList digits, false),
        Scanner.mk source symbols rest (cursor + digits.length)) := by
  induction digits generalizing text cursor with
  | nil =>
    rw [String.ofList_nil, String.append_empty]
    cases rest with
    | nil => exact numeral_of_nil rfl text false
    | cons c rest =>
      obtain ⟨digit, point, -⟩ := ends c rfl
      rw [List.map_nil, List.nil_append, numeral_of_cons rfl, digit, point,
        if_neg Bool.false_ne_true, if_neg Bool.false_ne_true]
      rfl
  | cons d digits ih =>
    obtain ⟨here, behind⟩ := List.forall_mem_cons.mp all
    have ungrouped := ungrouped_digits source (cursor + 1) behind own ends
    rw [List.map_cons, List.cons_append, numeral_of_cons rfl, Numeral.isDigit_singleton,
      if_pos here, advance]
    dsimp only
    rw [skipGroup_eq_self ungrouped, ih (cursor + 1) behind, List.length_cons, Nat.add_assoc,
      Nat.add_comm 1, String.append_assoc, String.singleton_eq_ofList, ← String.ofList_append,
      List.singleton_append]

theorem scan_digits (hne : digits ≠ []) :
    (Scanner.mk source symbols (digits.map String.singleton ++ rest) cursor).scan =
      (Scanner.mk source symbols rest (cursor + digits.length)).scanBehind
        [⟨.integer, String.ofList digits, cursor⟩] := by
  have read := numeral_digits source cursor all own ends ""
  cases digits with
  | nil => exact absurd rfl hne
  | cons d digits =>
    have digit : d.isDigit = true := all d List.mem_cons_self
    have digit' : Numeral.isDigit (String.singleton d) = true := by
      rw [Numeral.isDigit_singleton, digit]
    have pointless : String.ofList (d :: digits) ≠ "." := by
      intro same
      obtain ⟨rfl, -⟩ := List.cons.inj (String.ofList_injective same)
      contradiction
    have settled : (Scanner.mk source symbols (String.singleton d ::
        (digits.map String.singleton ++ rest)) cursor).Settled :=
      settled_of_keeps (by rintro _ ⟨⟩; exact Numeral.Symbols.drops_digit digit' (own _ digit'))
    have starts : (Scanner.mk source symbols (String.singleton d ::
        (digits.map String.singleton ++ rest)) cursor).startsNumeral (String.singleton d) = true := by
      rw [startsNumeral, digit', Bool.true_or]
    refine scan_of_token ?_ (by simp)
    rw [List.map_cons, List.cons_append] at read ⊢
    rw [next, skip_eq_self settled, tokenHere]
    dsimp only
    rw [if_pos starts, scanNumeral, read, String.empty_append]
    exact if_neg pointless

end Digits

end Forward

section Standard
open Numeral.Symbols (standard)
variable {s stop : Scanner} {c : String} {token : Token}

theorem isAscii_standard : ∀ c ∈ [".", "'", ",", "_"], isAscii c = true := by
  decide

theorem isAscii_of_dropped (h : standard.drops c = true) : isAscii c = true := by
  rcases Bool.or_eq_true_iff.mp h with space | grouping
  · simp only [isSpace, Bool.or_eq_true, beq_iff_eq] at space
    rcases space with ((rfl | rfl) | rfl) | rfl <;> decide
  · exact isAscii_standard c (Numeral.mem_of_standard (.inl grouping))

theorem isAscii_of_starts (h : Numeral.isDigit c = true ∨ standard.isPoint c = true) :
    isAscii c = true := by
  rcases h with digit | point
  · obtain ⟨d, hd, digit⟩ := Numeral.exists_digit_of_isDigit digit
    have printable := Text.isPrintable_of_isDigit digit
    simp only [isAscii, hd, List.all_cons, List.all_nil, Bool.and_true, decide_eq_true_eq]
    exact Nat.lt_trans printable.2 (by decide)
  · exact isAscii_standard c (Numeral.mem_of_standard (.inr point))

theorem isAscii_of_cut {pieces : List Numeral.Piece} {rest : List String}
    (h : Numeral.Cut standard pieces rest) :
    ∀ c ∈ pieces.flatMap Numeral.Piece.clusters, isAscii c = true := by
  induction h with
  | nil => simp
  | @cons p pieces rest starts kept gap others ih =>
    intro c mem
    rw [List.flatMap_cons, Numeral.Piece.clusters, List.mem_append, List.mem_cons] at mem
    rcases mem with (rfl | mem) | mem
    · exact isAscii_of_starts starts
    · exact isAscii_of_dropped (Numeral.Symbols.drops_of_mem_gap c (by rwa [gap]))
    · exact ih c mem

theorem passes_ascii_next (symbols : s.symbols = standard) (h : s.next = (.ok token, stop)) :
    ∃ passed, s.Passes passed stop ∧ ∀ c ∈ passed, isAscii c = true := by
  have skipped := s.passes_skip
  have blanks : ∀ c ∈ s.rest.takeWhile s.skips, isAscii c = true := fun c mem =>
    isAscii_of_dropped (symbols ▸ drops_of_mem_skipped c mem)
  have found := s.finds_next
  rw [h] at found
  have ⟨passed, onward, ascii⟩ : ∃ passed, s.skip.Passes passed stop ∧
      ∀ c ∈ passed, isAscii c = true := by
    cases found with
    | endOfInput => exact ⟨[], .refl _, by simp⟩
    | symbol here other ascii => exact ⟨_, passes_advance here, by simpa using ascii⟩
    | numeral gathers =>
      have cut := gathers.cut
      rw [symbols_skip, symbols] at cut
      exact ⟨_, gathers.passed, isAscii_of_cut cut⟩
  refine ⟨_, skipped.trans onward, fun c mem => ?_⟩
  exact (List.mem_append.mp mem).elim (blanks c) (ascii c)

theorem isAscii_of_scan (symbols : s.symbols = standard) {last : Token}
    (h : s.scan.2.1 = .ok last) : ∀ c ∈ s.rest, isAscii c = true := by
  fun_induction scan s with
  | case1 => contradiction
  | case2 s token stop hn ended =>
    obtain ⟨passed, onward, ascii⟩ := passes_ascii_next symbols hn
    obtain ⟨rfl, none⟩ := end_of_next hn ended
    rwa [onward.rest, none, List.append_nil]
  | case3 s token stop hn before tokens others hs ih =>
    obtain ⟨passed, onward, ascii⟩ := passes_ascii_next symbols hn
    rw [hs] at ih
    intro c mem
    rw [onward.rest] at mem
    exact (List.mem_append.mp mem).elim (ascii c) (ih (onward.symbols.trans symbols) h c)

theorem ascii_of_scan {source : String} {last : Token}
    (h : (ofSource source standard).scan.2.1 = .ok last) :
    ∀ c ∈ source.toList, c.toNat < 0x80 := by
  intro c mem
  rw [← Text.flatten_group source.toList] at mem
  obtain ⟨piece, hpiece, mem⟩ := List.mem_flatten.mp mem
  have ascii := isAscii_of_scan rfl h _ (List.mem_map_of_mem hpiece)
  rw [isAscii, String.toList_ofList, List.all_eq_true] at ascii
  exact of_decide_eq_true (ascii c mem)

/-- A source that is scanned to its end is scanned in the same way with printable characters behind
it. -/
theorem scan_append {source more : String} {last : Token}
    (h : (ofSource source standard).scan.2.1 = .ok last)
    (printable : ∀ c ∈ more.toList, Text.IsPrintable c)
    (keeps : standard.Keeps (Text.characters more))
    (ends : (ofSource source standard).scan.1.getLast?.any (·.kind.isLiteral) →
      standard.Ends (Text.characters more)) :
    ∃ cursor, (ofSource (source ++ more) standard).scan =
      (Scanner.mk (source ++ more) standard (Text.characters more) cursor).scanBehind
        (ofSource source standard).scan.1 := by
  have whole : ofSource (source ++ more) standard =
      (ofSource source standard).followed (source ++ more) (Text.characters more) := by
    rw [ofSource, Text.clusters_append (ascii_of_scan h) printable]
    rfl
  rw [whole]
  exact scan_followed keeps ends h

end Standard

end Scanner
end Reckoner

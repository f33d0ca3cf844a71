import Reckoner.Proofs.Pieces

/-! The clusters that a scanner passes. Main statement: the tokens of a scanned source spell its
clusters in order, each from the cluster in its column on, and nothing but blanks and grouping
symbols is left out. -/
namespace Reckoner

namespace Numeral

theorem isSpace_of_isDigit {cluster : String} (h : isDigit cluster) :
    Scanner.isSpace cluster = false := by
  rw [← Bool.not_eq_true]
  intro space
  simp only [Scanner.isSpace, Bool.or_eq_true, beq_iff_eq] at space
  rcases space with ((rfl | rfl) | rfl) | rfl <;> contradiction

namespace Symbols
variable {symbols : Symbols} {c : String} {clusters : List String}

/-- What tokens write for the clusters. -/
def spelling (symbols : Symbols) (clusters : List String) : String :=
  String.join ((clusters.filter fun c => !symbols.drops c).map symbols.spell)

theorem spelling_append (more : List String) :
    symbols.spelling (clusters ++ more) = symbols.spelling clusters ++ symbols.spelling more := by
  simp [spelling]

theorem spelling_cons (kept : symbols.drops c = false) :
    symbols.spelling (c :: clusters) = symbols.spell c ++ symbols.spelling clusters := by
  simp [spelling, kept]

theorem spelling_dropped (h : ∀ c ∈ clusters, symbols.drops c = true) :
    symbols.spelling clusters = "" := by
  have hnone : clusters.filter (fun c => !symbols.drops c) = [] := by
    simpa [List.filter_eq_nil_iff] using h
  rw [spelling, hnone]
  rfl

theorem spelling_behind (h : ∀ c ∈ clusters, symbols.drops c = true) (rest : List String) :
    symbols.spelling (clusters ++ rest) = symbols.spelling rest := by
  rw [spelling_append, spelling_dropped h, String.empty_append]

end Symbols

/-- Pieces are spelled as they are written, as long as the point is no blank. -/
theorem Cut.spelling_eq {symbols : Symbols} {pieces : List Piece} {rest : List String}
    (visible : Scanner.isSpace symbols.point = false) (h : Cut symbols pieces rest) :
    symbols.spelling (pieces.flatMap Piece.clusters) = symbols.written pieces := by
  induction h with
  | nil => rfl
  | @cons p pieces rest starts ungrouped gap _ ih =>
    have kept : symbols.drops p.cluster = false := by
      rw [Symbols.drops, ungrouped, Bool.or_false]
      rcases starts with digit | point
      · exact isSpace_of_isDigit digit
      · rwa [← eq_of_beq point]
    have drops : ∀ c ∈ p.gap, symbols.drops c = true := gap ▸ Symbols.drops_of_mem_gap
    rw [List.flatMap_cons, Piece.clusters, List.cons_append, Symbols.spelling_cons kept,
      Symbols.spelling_behind drops, ih, Symbols.written_cons]

end Numeral

namespace Scanner

section Numeral
variable {s : Scanner} {c : String} {rest : List String}

/-- Reading on, the text of a numeral grows by what the clusters passed are spelled. -/
def Extends (s : Scanner) (text : String) (read : Option (String × Bool) × Scanner) : Prop :=
  ∃ passed, s.Passes passed read.2 ∧
    ∀ result, read.1 = some result → result.1 = text ++ s.symbols.spelling passed

theorem extends_numeral (visible : isSpace s.symbols.point = false) (ungrouped : s.Ungrouped)
    (text : String) (pointed : Bool) : s.Extends text (s.numeral text pointed) := by
  obtain ⟨pieces, gathers⟩ := gathers_numeral ungrouped text pointed
  refine ⟨_, gathers.passed, fun result hr => ?_⟩
  rw [(gathers.whole result hr).1, gathers.cut.spelling_eq visible]

theorem scanNumeral_ok (visible : isSpace s.symbols.point = false) (ungrouped : s.Ungrouped)
    (here : s.rest = c :: rest) (starts : s.startsNumeral c) {token : Token}
    (h : s.scanNumeral.1 = .ok token) :
    token.kind ≠ .endOfInput ∧ token.column = s.cursor ∧
      ∃ more, s.Passes (c :: more) s.scanNumeral.2 ∧
        token.text = s.symbols.spelling (c :: more) := by
  have less := length_scanNumeral_lt here starts
  obtain ⟨passed, hpassed, hread⟩ := extends_numeral visible ungrouped "" false
  unfold scanNumeral at h less ⊢
  generalize s.numeral "" false = read at h less hpassed hread ⊢
  obtain ⟨_ | ⟨text, pointed⟩, stop⟩ := read
  · contradiction
  dsimp only at h less ⊢
  split at h
  · contradiction
  next hpoint =>
    rw [if_neg hpoint] at less ⊢
    obtain ⟨more, rfl⟩ := hpassed.exists_cons here less
    rw [← Except.ok.inj h]
    refine ⟨?_, rfl, more, hpassed, (hread _ rfl).trans String.empty_append⟩
    cases pointed <;> simp

theorem tokenHere_ok (visible : isSpace s.symbols.point = false) (settled : s.Settled)
    {token : Token} (h : s.tokenHere.1 = .ok token) :
    (s.rest = [] ∧ token = ⟨.endOfInput, "", s.cursor⟩ ∧ s.tokenHere.2 = s) ∨
    token.kind ≠ .endOfInput ∧ token.column = s.cursor ∧
      ∃ c more, s.Passes (c :: more) s.tokenHere.2 ∧ s.symbols.drops c = false ∧
        token.text = s.symbols.spelling (c :: more) := by
  unfold tokenHere at h ⊢
  split at h
  next here =>
    rw [here]
    exact .inl ⟨rfl, (Except.ok.inj h).symm, rfl⟩
  next c rest here =>
    have kept := settled c rest here
    rw [here]
    split at h
    next starts =>
      rw [if_pos starts]
      obtain ⟨hkind, hcolumn, more, hpassed, hspelled⟩ :=
        scanNumeral_ok visible settled.ungrouped here starts h
      exact .inr ⟨hkind, hcolumn, c, more, hpassed, kept, hspelled⟩
    next starts =>
      have hpoint : s.symbols.isPoint c = false :=
        (Bool.or_eq_false_iff.mp (Bool.eq_false_iff.mpr starts)).2
      rw [if_neg starts]
      split at h
      next ascii =>
        rw [if_pos ascii, ← Except.ok.inj h]
        refine .inr ⟨kind_ofCluster_ne_endOfInput c, rfl, c, [], passes_advance here, kept, ?_⟩
        rw [Numeral.Symbols.spelling_cons kept, Numeral.Symbols.spell_other hpoint]
        exact String.append_empty.symm
      · contradiction

theorem next_ok (visible : isSpace s.symbols.point = false) {token : Token}
    (h : s.next.1 = .ok token) :
    ∃ dropped, (∀ d ∈ dropped, s.symbols.drops d = true) ∧
      token.column = s.cursor + dropped.length ∧
      (s.rest = dropped ∧ token.kind = .endOfInput ∧ token.text = "" ∨
        token.kind ≠ .endOfInput ∧ ∃ c more, s.Passes (dropped ++ c :: more) s.next.2 ∧
          s.symbols.drops c = false ∧ token.text = s.symbols.spelling (c :: more)) := by
  have skipped := s.passes_skip
  change isSpace s.skip.symbols.point = false at visible
  change s.skip.tokenHere.1 = .ok token at h
  refine ⟨s.rest.takeWhile s.skips, drops_of_mem_skipped, ?_⟩
  rcases tokenHere_ok visible s.settled_skip h with
    ⟨hrest, rfl, -⟩ | ⟨hkind, hcolumn, c, more, hpassed, kept, hspelled⟩
  · refine ⟨rfl, .inl ⟨?_, rfl, rfl⟩⟩
    have hpassed := skipped.rest
    rwa [hrest, List.append_nil] at hpassed
  · exact ⟨hcolumn, .inr ⟨hkind, c, more, skipped.trans hpassed, kept, hspelled⟩⟩

end Numeral

/-- The clusters, counted from a column on, are those of the tokens in order, and before each token
and at the end some that tokens leave out. Each token begins with a cluster in its column. -/
inductive Tiles (symbols : Numeral.Symbols) : Nat → List String → List Token → Prop where
  | done {column : Nat} {dropped : List String} (drops : ∀ d ∈ dropped, symbols.drops d = true) :
      Tiles symbols column dropped []
  | token {column : Nat} {dropped : List String} {token : Token} {c : String}
      {more rest : List String} {tokens : List Token}
      (drops : ∀ d ∈ dropped, symbols.drops d = true) (kept : symbols.drops c = false)
      (starts : token.column = column + dropped.length)
      (spelled : token.text = symbols.spelling (c :: more))
      (others : Tiles symbols (token.column + (c :: more).length) rest tokens) :
      Tiles symbols column (dropped ++ (c :: more ++ rest)) (token :: tokens)

section Tiles
variable {symbols : Numeral.Symbols} {column : Nat} {clusters : List String} {tokens : List Token}

theorem Tiles.spelling_eq (h : Tiles symbols column clusters tokens) :
    symbols.spelling clusters = String.join (tokens.map Token.text) := by
  induction h with
  | done drops => exact Numeral.Symbols.spelling_dropped drops
  | token drops kept starts spelled _ ih =>
    rw [List.map_cons, String.join_cons, ← ih, spelled, Numeral.Symbols.spelling_behind drops,
      Numeral.Symbols.spelling_append]

theorem Tiles.le_column (h : Tiles symbols column clusters tokens) :
    ∀ token ∈ tokens, column ≤ token.column := by
  induction h with
  | done => exact fun token mem => absurd mem List.not_mem_nil
  | token drops kept starts spelled _ ih =>
    intro token mem
    rcases List.mem_cons.mp mem with rfl | mem
    · omega
    · have hle := ih token mem
      omega

theorem Tiles.pairwise_column (h : Tiles symbols column clusters tokens) :
    (tokens.map Token.column).Pairwise (· < ·) := by
  induction h with
  | done => exact .nil
  | token drops kept starts spelled others ih =>
    refine .cons (fun next mem => ?_) ih
    obtain ⟨token, htoken, rfl⟩ := List.mem_map.mp mem
    have hle := others.le_column token htoken
    rw [List.length_cons] at hle
    omega

theorem Tiles.exists_cluster (h : Tiles symbols column clusters tokens) {token : Token}
    {before after : List Token} (split : tokens = before ++ token :: after) :
    ∃ passed c rest more, clusters = passed ++ c :: rest ∧
      token.column = column + passed.length ∧ symbols.drops c = false ∧
      symbols.spelling passed = String.join (before.map Token.text) ∧
      token.text = symbols.spell c ++ more := by
  induction h generalizing before with
  | done => exact absurd split.symm (by simp)
  | @token column dropped first c more rest tokens drops kept starts spelled others ih =>
    cases before with
    | nil =>
      obtain ⟨rfl, -⟩ := List.cons.inj split
      refine ⟨dropped, c, more ++ rest, symbols.spelling more, rfl, starts, kept,
        Numeral.Symbols.spelling_dropped drops, ?_⟩
      rw [spelled, Numeral.Symbols.spelling_cons kept]
    | cons head before =>
      obtain ⟨rfl, htail⟩ := List.cons.inj split
      obtain ⟨passed, d, rest, tail, rfl, hcolumn, hkept, hspelling, htext⟩ := ih htail
      refine ⟨dropped ++ (c :: more ++ passed), d, rest, tail, ?_, ?_, hkept, ?_, htext⟩
      · simp
      · rw [hcolumn, starts, List.length_append, List.length_append]
        omega
      · rw [List.map_cons, String.join_cons, ← hspelling, spelled,
          Numeral.Symbols.spelling_behind drops, Numeral.Symbols.spelling_append]

end Tiles

/-- The tokens before the end of input tile the clusters that are still to be scanned. -/
theorem tiles_scan (s : Scanner) (visible : isSpace s.symbols.point = false) {last : Token}
    (h : s.scan.2.1 = .ok last) :
    Tiles s.symbols s.cursor s.rest s.scan.1 ∧
      last = ⟨.endOfInput, "", s.cursor + s.rest.length⟩ := by
  fun_induction scan s with
  | case1 => contradiction
  | case2 s token stop hn hend =>
    obtain rfl := Except.ok.inj h
    obtain ⟨dropped, drops, hcolumn, ⟨rfl, hkind, htext⟩ | ⟨hbefore, -⟩⟩ :=
      next_ok visible (congrArg Prod.fst hn)
    · refine ⟨.done drops, ?_⟩
      rw [← hkind, ← htext, ← hcolumn]
    · exact absurd hend hbefore
  | case3 s token stop hn hbefore tokens last hs ih =>
    obtain ⟨dropped, drops, hcolumn, ⟨-, hend, -⟩ | ⟨-, c, more, hpassed, kept, hspelled⟩⟩ :=
      next_ok visible (congrArg Prod.fst hn)
    · exact absurd hend hbefore
    rw [hn] at hpassed
    have hcursor : stop.cursor = token.column + (c :: more).length := by
      rw [hpassed.cursor, hcolumn, List.length_append, Nat.add_assoc]
    rw [hs] at ih
    obtain ⟨htiles, hlast⟩ := ih (hpassed.symbols ▸ visible) h
    rw [hpassed.symbols, hcursor] at htiles
    refine ⟨?_, ?_⟩
    · rw [hpassed.rest, List.append_assoc]
      exact .token drops kept hcolumn hspelled htiles
    · rw [hlast, hpassed.cursor, Nat.add_assoc, ← List.length_append, ← hpassed.rest]

end Scanner

theorem Text.ne_empty_of_mem_clusters {text cluster : String} (mem : cluster ∈ clusters text) :
    cluster ≠ "" := by
  obtain ⟨piece, hpiece, rfl⟩ := List.mem_map.mp mem
  intro h
  exact ne_nil_of_mem_group hpiece (by simpa using h)

/-- A source that is scanned to its end is spelled by its tokens: the texts in order are the
clusters without blanks and grouping symbols, the points written `.`. Each text begins with the
cluster in the token's column, where the texts before it end, columns grow from token to token, and
the end of input stands behind the last cluster. -/
theorem scan_spells_source {source point : String} {grouping : List String}
    (visible : Scanner.isSpace point = false) {last : Token}
    (h : (Scanner.ofSource source (.ofLists point grouping)).scan.2.1 = .ok last) :
    let symbols := Numeral.Symbols.ofLists point grouping
    let clusters := Text.clusters source
    let tokens := (Scanner.ofSource source symbols).scan.1
    String.join (tokens.map Token.text) = symbols.spelling clusters ∧
    (∀ before token after, tokens = before ++ token :: after →
      ∃ passed c rest more, clusters = passed ++ c :: rest ∧ token.column = passed.length ∧
        c ≠ "" ∧ symbols.drops c = false ∧
        String.join (before.map Token.text) = symbols.spelling passed ∧
        token.text = symbols.spell c ++ more) ∧
    (tokens.map Token.column).Pairwise (· < ·) ∧
    last = ⟨.endOfInput, "", clusters.length⟩ := by
  intro symbols clusters tokens
  obtain ⟨tiles, hlast⟩ := Scanner.tiles_scan _ visible h
  rw [Scanner.ofSource, Nat.zero_add] at hlast
  refine ⟨tiles.spelling_eq.symm, ?_, tiles.pairwise_column, hlast⟩
  intro before token after split
  obtain ⟨passed, c, rest, more, hclusters, hcolumn, kept, hspelling, htext⟩ :=
    tiles.exists_cluster split
  rw [Scanner.ofSource, Nat.zero_add] at hcolumn
  have hclusters : clusters = passed ++ c :: rest := hclusters
  have mem : c ∈ clusters := by
    rw [hclusters]
    exact List.mem_append_right _ List.mem_cons_self
  exact ⟨passed, c, rest, more, hclusters, hcolumn, Text.ne_empty_of_mem_clusters mem, kept,
    hspelling.symm, htext⟩

theorem spelled_with_shared_symbols :
    let symbols := Numeral.Symbols.ofLists "," ["'", "+", ","]
    let scan := (Scanner.ofSource "7+' 0,5\r\n(3_" symbols).scan
    Scanner.isSpace "," = false ∧ scan.2.1 = .ok ⟨.endOfInput, "", 11⟩ ∧
      String.join (scan.1.map Token.text) = "70.5(3_" ∧
      (scan.1.map Token.column).Pairwise (· < ·) := by
  intro symbols scan
  have visible : Scanner.isSpace "," = false := by decide
  have h : scan.2.1 = .ok ⟨.endOfInput, "", 11⟩ := eq_ok_of_toOption (by decide +kernel)
  obtain ⟨hjoin, -, hcolumns, -⟩ := scan_spells_source visible h
  exact ⟨visible, h, hjoin.trans (by decide +kernel), hcolumns⟩

end Reckoner

import Reckoner.Proofs.Respelling

/-! The symbols that a source is written with do not matter. Main statements: a grouping symbol put
in before anything but a blank changes neither the tokens nor the tree, and clusters in any symbols
are scanned like those in the standard symbols for which they stand. -/
namespace Reckoner

/-- The error without the words of its message. -/
def Error.bare : Error → Error
  | malformedNumber _ => malformedNumber ""
  | characterTooLarge _ => characterTooLarge ""
  | unexpectedToken text found expected _ => unexpectedToken text found expected ""
  | zeroDivisor _ => zeroDivisor ""
  | overflow _ => overflow ""
  | incompleteExpression => incompleteExpression

/-- What is wrong and where, without the words of the message. -/
def Error.located (error : Error) : Error × Option Nat :=
  (error.bare, Text.caretColumn? error.message)

theorem Error.located_pointAt {make : String → Error}
    (kind : make = .malformedNumber ∨ make = .characterTooLarge) (message text : String)
    (column : Nat) :
    (make (Text.pointAt message text column)).located = ((make "").bare, some column) := by
  rcases kind with rfl | rfl <;> exact Prod.ext rfl (Text.caretColumn?_pointAt ..)

section MapError
variable {α ε ε' : Type} {x : Except ε α} {f : ε → ε'}

theorem eq_ok_of_mapError {a : α} (h : x.mapError f = .ok a) : x = .ok a := by
  cases x with
  | error => contradiction
  | ok found => exact congrArg Except.ok (Except.ok.inj h)

theorem exists_of_mapError {error : ε'} (h : x.mapError f = .error error) :
    ∃ e, x = .error e ∧ f e = error := by
  cases x with
  | ok => contradiction
  | error e => exact ⟨e, rfl, Except.error.inj h⟩

end MapError

namespace Builder
variable {a a' : Token}

/-- The same builder for another source. -/
def rebase (source : String) (b : Builder) : Builder := { b with source }

@[simp] theorem awaiting_rebase (source : String) (b : Builder) :
    (b.rebase source).awaiting = b.awaiting := rfl

@[simp] theorem tree_rebase (source : String) (b : Builder) : (b.rebase source).tree = b.tree := rfl

theorem bare_unexpected (kind : a'.kind = a.kind) (text : a'.text = a.text)
    (source source' : String) (expected : List Token.Kind) :
    (Error.unexpected source' a' expected).bare = (Error.unexpected source a expected).bare := by
  rw [Error.unexpected, Error.unexpected, Error.bare, Error.bare, kind, text]

theorem operate_rebase (b : Builder) (source : String) (operator : Operator) (tier : Tier)
    (operand : Tree) : (b.rebase source).operate operator tier operand =
      (b.operate operator tier operand).map (rebase source) := by
  unfold operate rebase
  dsimp only
  split
  · rfl
  · split <;> rfl

theorem negateGroup_rebase (b : Builder) (source : String) :
    (b.rebase source).negateGroup = b.negateGroup.map (rebase source) :=
  operate_rebase { b with made := b.made + 1 } source .multiply .exponential _

theorem literal_rebase (b : Builder) (source : String) (negative : Bool) (kind : a'.kind = a.kind)
    (text : a'.text = a.text) :
    ((b.rebase source).literal negative a').mapError Error.bare =
      ((b.literal negative a).map (rebase source)).mapError Error.bare := by
  unfold literal Numeral.read?
  rw [kind, text]
  split <;> rfl

theorem takeOperand_rebase (b : Builder) (source : String) (kind : a'.kind = a.kind)
    (text : a'.text = a.text) :
    ((b.rebase source).takeOperand a').mapError Error.bare =
      ((b.takeOperand a).map (rebase source)).mapError Error.bare := by
  unfold takeOperand
  rw [kind]
  split
  · rfl
  · rfl
  · rfl
  · exact b.literal_rebase source false kind text
  · exact b.literal_rebase source false kind text
  · exact congrArg Except.error (bare_unexpected kind text ..)

theorem takeSigned_rebase (b : Builder) (source : String) (negative : Bool)
    (kind : a'.kind = a.kind) (text : a'.text = a.text) :
    ((b.rebase source).takeSigned negative a').mapError Error.bare =
      ((b.takeSigned negative a).map (rebase source)).mapError Error.bare := by
  unfold takeSigned
  rw [kind]
  split
  · split
    · rw [negateGroup_rebase]
      cases b.negateGroup <;> rfl
    · rfl
  · exact b.literal_rebase source negative kind text
  · exact b.literal_rebase source negative kind text
  · exact congrArg Except.error (bare_unexpected kind text ..)

theorem takeOperator_rebase (b : Builder) (source : String) (operand : Tree)
    (kind : a'.kind = a.kind) (text : a'.text = a.text) :
    ((b.rebase source).takeOperator operand a').mapError Error.bare =
      ((b.takeOperator operand a).map (rebase source)).mapError Error.bare := by
  unfold takeOperator
  rw [kind]
  split
  · rfl
  · rw [operate_rebase]
  · exact congrArg Except.error (bare_unexpected kind text ..)

theorem take_rebase (b : Builder) (source : String) (kind : a'.kind = a.kind)
    (text : a'.text = a.text) :
    ((b.rebase source).take a').mapError Error.bare =
      ((b.take a).map (rebase source)).mapError Error.bare := by
  unfold take
  rw [awaiting_rebase]
  cases b.awaiting with
  | operand => exact b.takeOperand_rebase source kind text
  | signed negative => exact b.takeSigned_rebase source negative kind text
  | operator literal => exact b.takeOperator_rebase source literal kind text

theorem takeAll_rebase {k : Nat} {tokens tokens' : List Token}
    (h : List.Forall₂ (Scanner.Shifted k) tokens tokens') (b : Builder) (source : String) :
    ((b.rebase source).takeAll tokens').1.mapError Error.bare =
        (b.takeAll tokens).1.mapError Error.bare ∧
      ((b.rebase source).takeAll tokens').2 = (b.takeAll tokens).2.rebase source := by
  induction h generalizing b with
  | nil => exact ⟨rfl, rfl⟩
  | @cons a a' tokens tokens' shifted _ ih =>
    have taken := b.take_rebase source shifted.kind shifted.text
    rw [takeAll, takeAll]
    generalize b.take a = found at taken ⊢
    cases found with
    | ok next =>
      rw [eq_ok_of_mapError taken]
      exact ih next
    | error error =>
      obtain ⟨_, stuck, bare⟩ := exists_of_mapError taken
      rw [stuck]
      exact ⟨congrArg Except.error bare, rfl⟩

theorem finish_rebase (b : Builder) (source : String) (kind : a'.kind = a.kind)
    (text : a'.text = a.text) :
    ((b.rebase source).finish a').mapError Error.bare = (b.finish a).mapError Error.bare := by
  unfold finish
  rw [awaiting_rebase, tree_rebase]
  cases b.awaiting with
  | operand =>
    dsimp only
    split
    · exact congrArg Except.error (bare_unexpected kind text ..)
    · rfl
  | signed negative => exact congrArg Except.error (bare_unexpected kind text ..)
  | operator operand => rfl

end Builder

/-- What a token says, wherever it stands. -/
def Token.lexeme (token : Token) : Token.Kind × String := (token.kind, token.text)

namespace Scanner
variable {s t : Scanner} {k : Nat}

theorem Shifted.lexeme {a b : Token} (h : Shifted k a b) : b.lexeme = a.lexeme :=
  Prod.ext h.kind h.text

theorem Agree.lexeme {source other : String} {x y : Except Error Token}
    (h : Agree k source other x y) :
    (y.map Token.lexeme).mapError Error.bare = (x.map Token.lexeme).mapError Error.bare := by
  cases h with
  | token shifted => exact congrArg Except.ok shifted.lexeme
  | error kind => rcases kind with rfl | rfl <;> rfl

theorem lexemes_eq {tokens tokens' : List Token} (h : List.Forall₂ (Shifted k) tokens tokens') :
    tokens'.map Token.lexeme = tokens.map Token.lexeme := by
  induction h with
  | nil => rfl
  | cons shifted _ ih => rw [List.map_cons, List.map_cons, shifted.lexeme, ih]

theorem Shifted.eq {a b : Token} (h : Shifted 0 a b) : b = a := by
  obtain ⟨kind, text, least, most⟩ := h
  have column : b.column = a.column := by omega
  cases a
  cases b
  simp only at kind text column
  rw [kind, text, column]

theorem eq_of_shifted {tokens tokens' : List Token}
    (h : List.Forall₂ (Shifted 0) tokens tokens') : tokens' = tokens := by
  induction h with
  | nil => rfl
  | cons shifted _ ih => rw [shifted.eq, ih]

theorem Agree.located {source other : String} {x y : Except Error Token}
    (h : Agree 0 source other x y) :
    y.mapError Error.located = x.mapError Error.located := by
  cases h with
  | token shifted => rw [shifted.eq]
  | @error make message column column' kind least most =>
    obtain rfl : column' = column := by omega
    have located := Error.located_pointAt kind message
    exact congrArg Except.error ((located other column').trans (located source column').symm)

theorem tree_parse (s : Scanner) : s.parse.tree =
    ((Builder.start s.source).takeAll s.scan.1).1.bind fun _ =>
      s.scan.2.1.bind ((Builder.start s.source).takeAll s.scan.1).2.finish := by
  unfold Scanner.parse
  dsimp only
  generalize (Builder.start s.source).takeAll s.scan.1 = reached
  obtain ⟨_ | _, b⟩ := reached <;> rfl

/-- Scanners in step are parsed to the same tree, or to the same kind of error. -/
theorem InStep.parse (h : InStep k s t) :
    t.parse.tree.mapError Error.bare = s.parse.tree.mapError Error.bare := by
  obtain ⟨tokens, last⟩ := h.scan
  obtain ⟨taken, built⟩ := Builder.takeAll_rebase tokens (.start s.source) t.source
  change ((Builder.start t.source).takeAll t.scan.1).1.mapError Error.bare = _ at taken
  change ((Builder.start t.source).takeAll t.scan.1).2 = _ at built
  rw [tree_parse, tree_parse]
  generalize (Builder.start t.source).takeAll t.scan.1 = reached' at taken built ⊢
  generalize (Builder.start s.source).takeAll s.scan.1 = reached at taken built ⊢
  obtain ⟨result', b'⟩ := reached'
  obtain ⟨result, b⟩ := reached
  dsimp only at taken built
  subst built
  cases result with
  | error =>
    obtain ⟨_, rfl, bare⟩ := exists_of_mapError taken
    exact congrArg Except.error bare
  | ok =>
    obtain rfl := eq_ok_of_mapError taken
    generalize s.scan.2.1 = found at last ⊢
    generalize t.scan.2.1 = found' at last ⊢
    cases last with
    | token shifted => exact b.finish_rebase t.source shifted.kind shifted.text
    | error kind => rcases kind with rfl | rfl <;> rfl

/-- A scanner of given clusters, at the first of them. -/
def ofClusters (symbols : Numeral.Symbols) (clusters : List String) : Scanner :=
  ⟨String.join clusters, symbols, clusters, 0⟩

/-- Clusters that a source consists of are scanned and parsed as that source. -/
theorem ofSource_eq_ofClusters (source : String) (symbols : Numeral.Symbols) :
    ofSource source symbols = ofClusters symbols (Text.clusters source) := by
  have joined : String.join (Text.clusters source) = source := by
    rw [← String.toList_inj, String.toList_join, Text.clusters, List.flatMap_map]
    simp
  rw [ofSource, ofClusters, joined]

theorem inStep_ofClusters {symbols others : Numeral.Symbols} {clusters clusters' : List String}
    (h : Numeral.Respelled symbols others k clusters clusters') :
    InStep k (ofClusters symbols clusters) (ofClusters others clusters') :=
  ⟨⟨k, le_rfl, h⟩, by simp only [ofClusters, h.length_eq, Nat.zero_add]⟩

end Scanner

namespace Numeral
variable {symbols : Symbols}

theorem Respelled.behind {n : Nat} {cs ds : List String}
    (rest : Respelled symbols symbols n cs ds) (c : String) :
    Respelled symbols symbols n (c :: cs) (c :: ds) := by
  cases kept : symbols.isGrouping c with
  | true => exact .grouping kept kept rest
  | false => exact .alike ⟨kept, kept, rfl, rfl, fun _ => rfl, fun _ => rfl⟩ rest

theorem Respelled.refl (symbols : Symbols) (clusters : List String) :
    Respelled symbols symbols 0 clusters clusters := by
  induction clusters with
  | nil => exact .nil
  | cons c clusters ih => exact ih.behind c

theorem Respelled.insert {g : String} {after : List String}
    (grouping : symbols.isGrouping g = true)
    (ahead : ∀ c ∈ after.head?, Scanner.isSpace c = false) (before : List String) :
    Respelled symbols symbols 1 (before ++ after) (before ++ g :: after) := by
  induction before with
  | nil => exact .inserted grouping ahead (.refl symbols after)
  | cons c before ih => exact ih.behind c

/-- What stands for the cluster where the symbols are the standard ones. -/
def Symbols.transcribe (symbols : Symbols) (cluster : String) : String :=
  if symbols.isGrouping cluster then "'" else symbols.spell cluster

theorem isDigit_standard : ∀ c ∈ [".", "'", ",", "_"], isDigit c = false := by
  decide

theorem mem_of_standard {c : String}
    (h : Symbols.standard.isGrouping c = true ∨ Symbols.standard.isPoint c = true) :
    c ∈ [".", "'", ",", "_"] := by
  rcases h with grouping | point
  · exact List.mem_cons_of_mem _ (Symbols.isGrouping_ofLists.mp grouping).1
  · rw [← beq_iff_eq.mp point]
    exact List.mem_cons_self

theorem Alike.spell {c : String} (kept : symbols.isGrouping c = false)
    (visible : symbols.isPoint c = true → Scanner.isSpace c = false)
    (own : c ∈ [".", "'", ",", "_"] → symbols.isPoint c = true) :
    Alike symbols .standard c (symbols.spell c) := by
  cases digit : isDigit c with
  | true =>
    rw [Symbols.spell_digit digit]
    have other : c ∉ [".", "'", ",", "_"] := fun mem => by simp [isDigit_standard c mem] at digit
    have kept' := Bool.eq_false_iff.mpr fun h => other (mem_of_standard (.inl h))
    exact ⟨kept, kept', rfl, rfl, by simp [digit], fun _ => rfl⟩
  | false =>
    cases point : symbols.isPoint c with
    | true =>
      rw [Symbols.spell_point point digit]
      exact ⟨kept, by decide, by rw [visible point]; decide, by rw [digit]; decide,
        fun _ => by rw [point]; decide, by simp [digit, point]⟩
    | false =>
      rw [Symbols.spell_other point]
      have other : c ∉ [".", "'", ",", "_"] := fun mem => by simp [own mem] at point
      have kept' := Bool.eq_false_iff.mpr fun h => other (mem_of_standard (.inl h))
      have point' := Bool.eq_false_iff.mpr fun h => other (mem_of_standard (.inr h))
      exact ⟨kept, kept', rfl, rfl, fun _ => point'.trans point.symm, fun _ => rfl⟩

theorem Respelled.transcribe {clusters : List String}
    (visible : Scanner.isSpace symbols.point = false)
    (own : ∀ c ∈ clusters, c ∈ [".", "'", ",", "_"] →
      c = symbols.point ∨ symbols.isGrouping c = true) :
    Respelled symbols .standard 0 clusters (clusters.map symbols.transcribe) := by
  induction clusters with
  | nil => exact .nil
  | cons c clusters ih =>
    have rest := ih fun d mem => own d (List.mem_cons_of_mem c mem)
    rw [List.map_cons, Symbols.transcribe]
    split
    next grouping => exact .grouping grouping (by decide) rest
    next kept =>
      have kept := Bool.eq_false_iff.mpr kept
      refine .alike (.spell kept (fun point => ?_) fun mem => ?_) rest
      · rwa [← beq_iff_eq.mp point]
      · rcases own c List.mem_cons_self mem with rfl | grouping
        · exact beq_self_eq_true _
        · simp [kept] at grouping

end Numeral

/-- A grouping symbol put in anywhere but before a blank changes neither what the tokens say nor
how they end, and the clusters are parsed to the same tree or to an error of the same kind. -/
theorem grouping_symbol_is_transparent {symbols : Numeral.Symbols} {g : String}
    {before after : List String} (grouping : symbols.isGrouping g = true)
    (ahead : ∀ c ∈ after.head?, Scanner.isSpace c = false) :
    let plain := Scanner.ofClusters symbols (before ++ after)
    let grouped := Scanner.ofClusters symbols (before ++ g :: after)
    grouped.scan.1.map Token.lexeme = plain.scan.1.map Token.lexeme ∧
      (grouped.scan.2.1.map Token.lexeme).mapError Error.bare =
        (plain.scan.2.1.map Token.lexeme).mapError Error.bare ∧
      grouped.parse.tree.mapError Error.bare = plain.parse.tree.mapError Error.bare := by
  intro plain grouped
  have inStep : Scanner.InStep 1 plain grouped :=
    Scanner.inStep_ofClusters (.insert grouping ahead before)
  obtain ⟨tokens, last⟩ := inStep.scan
  exact ⟨Scanner.lexemes_eq tokens, last.lexeme, inStep.parse⟩

/-- A comma before the point takes nothing away from the numeral, which goes on behind a blank. -/
theorem comma_before_point :
    let plain := Scanner.ofClusters .standard (["(", "1"] ++ [".", "'", " ", "5", ")", "-", "2"])
    let grouped :=
      Scanner.ofClusters .standard (["(", "1"] ++ "," :: [".", "'", " ", "5", ")", "-", "2"])
    Scanner.ofSource "(1.' 5)-2" .standard = plain ∧
      Scanner.ofSource "(1,.' 5)-2" .standard = grouped ∧
      grouped.scan.1.map Token.lexeme = [(.openParen, "("), (.decimal, "1.5"), (.closeParen, ")"),
        (.operator .subtract, "-"), (.integer, "2")] ∧
      (grouped.scan.2.1.map Token.lexeme).mapError Error.bare =
        (plain.scan.2.1.map Token.lexeme).mapError Error.bare ∧
      grouped.parse.tree.mapError Error.bare = plain.parse.tree.mapError Error.bare := by
  intro plain grouped
  have comma : Numeral.Symbols.standard.isGrouping "," = true := by decide
  obtain ⟨tokens, last, trees⟩ := @grouping_symbol_is_transparent .standard ","
    ["(", "1"] [".", "'", " ", "5", ")", "-", "2"] comma (by decide)
  have read : plain.scan.1.map Token.lexeme = [(.openParen, "("), (.decimal, "1.5"),
      (.closeParen, ")"), (.operator .subtract, "-"), (.integer, "2")] := by decide +kernel
  have spelled : Text.clusters "(1.' 5)-2" =
      ["(", "1"] ++ [".", "'", " ", "5", ")", "-", "2"] := by decide +kernel
  have spelled' : Text.clusters "(1,.' 5)-2" =
      ["(", "1"] ++ "," :: [".", "'", " ", "5", ")", "-", "2"] := by decide +kernel
  refine ⟨?_, ?_, tokens.trans read, last, trees⟩
  · rw [Scanner.ofSource_eq_ofClusters, spelled]
  · rw [Scanner.ofSource_eq_ofClusters, spelled']

/-- Before a blank it joins two numerals to one. -/
example : (Scanner.ofClusters .standard ["1", " ", "5"]).scan.1.map Token.lexeme =
      [(.integer, "1"), (.integer, "5")] ∧
    (Scanner.ofClusters .standard ["1", "'", " ", "5"]).scan.1.map Token.lexeme =
      [(.integer, "15")] := by
  decide +kernel

/-- Clusters are scanned like those in the standard symbols for which they stand: call for call at
the same places, to the same tokens and to errors of the same kind and place. -/
theorem transcription_scans_alike {point : String} {grouping clusters : List String}
    (visible : Scanner.isSpace point = false)
    (own : ∀ c ∈ clusters, c ∈ [".", "'", ",", "_"] →
      c = point ∨ (Numeral.Symbols.ofLists point grouping).isGrouping c = true) :
    let original := Scanner.ofClusters (.ofLists point grouping) clusters
    let renamed := Scanner.ofClusters .standard
      (clusters.map (Numeral.Symbols.ofLists point grouping).transcribe)
    renamed.scan.1 = original.scan.1 ∧
      renamed.scan.2.1.mapError Error.located = original.scan.2.1.mapError Error.located ∧
      ∀ calls, (renamed.after calls).skip.cursor = (original.after calls).skip.cursor ∧
        (renamed.after calls).next.1.mapError Error.located =
          (original.after calls).next.1.mapError Error.located := by
  intro original renamed
  have inStep : Scanner.InStep 0 original renamed :=
    Scanner.inStep_ofClusters (.transcribe visible own)
  obtain ⟨tokens, last⟩ := inStep.scan
  refine ⟨Scanner.eq_of_shifted tokens, last.located, fun calls => ⟨?_, ?_⟩⟩
  · obtain ⟨least, most⟩ := (inStep.after calls).skip.cursor
    omega
  · exact (inStep.after calls).next.1.located

/-- A comma for the point, and a point that is left out, up to a letter outside ASCII. -/
theorem decimal_comma_read :
    let clusters := ["1", ".", "0", ",", "5", "+", "é"]
    let symbols := Numeral.Symbols.ofLists "," ["."]
    let original := Scanner.ofClusters symbols clusters
    let renamed := Scanner.ofClusters .standard (clusters.map symbols.transcribe)
    Scanner.ofSource "1.0,5+é" symbols = original ∧
      clusters.map symbols.transcribe = ["1", "'", "0", ".", "5", "+", "é"] ∧
      original.scan.1 = [⟨.decimal, "10.5", 0⟩, ⟨.operator .add, "+", 5⟩] ∧
      renamed.scan.1 = original.scan.1 ∧
      renamed.scan.2.1.mapError Error.located = .error (.characterTooLarge "", some 6) ∧
      (renamed.after 2).next.1.mapError Error.located =
        (original.after 2).next.1.mapError Error.located := by
  intro clusters symbols original renamed
  obtain ⟨tokens, last, calls⟩ := transcription_scans_alike
    (by decide : Scanner.isSpace "," = false)
    (by decide : ∀ c ∈ clusters, c ∈ [".", "'", ",", "_"] →
      c = "," ∨ (Numeral.Symbols.ofLists "," ["."]).isGrouping c = true)
  have stopped : original.scan.2.1 = .error (.characterTooLarge
      (Text.pointAt "character too large" "1.0,5+é" 6)) := eq_error_of_of? (by decide +kernel)
  have located : original.scan.2.1.mapError Error.located =
      .error (.characterTooLarge "", some 6) := by
    rw [stopped]
    exact congrArg Except.error (Error.located_pointAt (.inr rfl) ..)
  have spelled : Text.clusters "1.0,5+é" = clusters := by decide +kernel
  refine ⟨?_, by decide, by decide +kernel, tokens, last.trans located, (calls 2).2⟩
  rw [Scanner.ofSource_eq_ofClusters, spelled]

end Reckoner

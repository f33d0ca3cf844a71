import Reckoner.Proofs.Outcome
import Reckoner.Proofs.Recording

/-! What a log tells. Main statement: it names the operations in the order in which they have come
into the tree, all but the first, then it shows the tree on demand, and then it gives every
reduction that has been made. What is logged makes no difference to the value. -/
namespace Reckoner
open Reckoner.Language

def Content.isOperation : Content → Bool
  | operation _ => true
  | number _ => false

/-- The numbers of the operations among nodes. -/
def operationIds (nodes : List (Content × Nat)) : List Nat :=
  (nodes.filter fun node => node.1.isOperation).map Prod.snd

theorem operationIds_append (nodes more : List (Content × Nat)) :
    operationIds (nodes ++ more) = operationIds nodes ++ operationIds more := by
  rw [operationIds, List.filter_append, List.map_append]
  rfl

theorem operationIds_leaf (id : Nat) (n : Number) :
    operationIds (Tree.leaf id n).sourceOrder = [] := rfl

theorem operationIds_sublist (nodes : List (Content × Nat)) :
    (operationIds nodes).Sublist (nodes.map Prod.snd) :=
  List.filter_sublist.map _

theorem operationIds_spineOrder_eq_nil {frames : List Frame} :
    operationIds (spineOrder frames) = [] ↔ frames = [] := by
  constructor
  · intro none
    by_contra hne
    obtain ⟨f, rest, rfl⟩ := List.exists_cons_of_ne_nil hne
    have mem : f.id ∈ operationIds (spineOrder (f :: rest)) :=
      List.mem_map.mpr ⟨f.content, List.mem_filter.mpr
        ⟨Stack.content_mem_spineOrder List.mem_cons_self, rfl⟩, rfl⟩
    rw [none] at mem
    exact absurd mem List.not_mem_nil
  · rintro rfl
    rfl

namespace Stack

/-- The placements noted so far name the operations of the spine and below it, but for the first. -/
structure Noted (s : Stack) (placements : List Placement) : Prop where
  stacked : Stacked s.frames
  lists : ∃ contents, s.Lists contents
  names : (placements.map Placement.id).reverse = (operationIds (spineOrder s.frames)).tail

theorem noted_start : start.Noted [] :=
  ⟨stacked_start, ⟨[], lists_start⟩, rfl⟩

theorem Lists.id_lt {s : Stack} {contents : List Content} (h : s.Lists contents) :
    ∀ f ∈ s.frames, f.id < s.made := by
  intro f hf
  have mem : f.content ∈ contents.zipIdx := by
    rw [← h.order]
    exact List.mem_append_left _ (content_mem_spineOrder hf)
  have below : f.content.2 < contents.length := by simpa using List.snd_lt_of_mem_zipIdx mem
  rw [h.made]
  exact below

theorem names_grows {s s' : Stack} {placements more : List Placement} {new : Tree.Candidate}
    (h : s.Noted placements) (grows : Grows s s' placements more new) :
    (more.map Placement.id).reverse = (operationIds (spineOrder s'.frames)).tail := by
  obtain ⟨-, ⟨contents, lists⟩, names⟩ := h
  have operand : ∃ id n, new.operand = .leaf id n ∧ ∀ f ∈ s.frames, f.id < id := by
    rcases grows.operand with ha | negated
    · have order : spineOrder s.frames ++ new.operand.sourceOrder = contents.zipIdx := by
        simpa [pending, ha] using lists.order
      obtain ⟨id, n, leaf, -, below⟩ := leaf_of_order (lists.operand _ ha) order
      exact ⟨id, n, leaf, below⟩
    · exact ⟨s.made, _, negated, lists.id_lt⟩
  obtain ⟨id, n, leaf, below⟩ := operand
  have root : new.operand.id? = some id := by
    rw [leaf]
    rfl
  have order : spineOrder (Tree.pushed new s.frames) = _ :=
    Tree.spineOrder_pushed lists.upright root below
  have ids : operationIds (spineOrder s'.frames) =
      operationIds (spineOrder s.frames) ++ [new.id] := by
    rw [grows.frames, order, operationIds_append, operationIds_append, leaf, operationIds_leaf,
      List.append_nil]
    rfl
  rw [ids, grows.noted]
  by_cases first : s.frames = []
  · rw [operationIds_spineOrder_eq_nil.mpr first] at names ⊢
    rw [if_pos (by rw [first]; rfl), names]
    rfl
  · rw [if_neg (by simpa using first), List.reverse_cons, names,
      List.tail_append_of_ne_nil (mt operationIds_spineOrder_eq_nil.mp first)]

theorem noted_step {s s' : Stack} {token : Token} {placements : List Placement}
    (h : s.Noted placements) (source : String) (step : Step s token s') :
    ∃ more, (s.builder source placements).take token = .ok (s'.builder source more) ∧
      s'.Noted more := by
  obtain ⟨contents, lists⟩ := h.lists
  obtain ⟨more, taken, placed⟩ := take_builder h.stacked source placements step
  refine ⟨more, taken, stacked_step h.stacked step, ⟨_, lists_step lists 0 [] step⟩, ?_⟩
  rcases placed with ⟨frames, rfl⟩ | ⟨new, grows⟩
  · rw [frames]
    exact h.names
  · exact names_grows h grows

theorem noted_takeAll {s s' : Stack} {tokens : List Token} {placements : List Placement}
    (h : s.Noted placements) (source : String) (ht : s.takeAll tokens = some s') :
    ∃ more, (s.builder source placements).takeAll tokens = (.ok (), s'.builder source more) ∧
      s'.Noted more := by
  induction tokens generalizing s placements with
  | nil => exact ⟨placements, Option.some.inj ht ▸ ⟨rfl, h⟩⟩
  | cons token rest ih =>
    obtain ⟨s₁, step, ht⟩ := step_of_takeAll_cons ht
    obtain ⟨more, taken, noted⟩ := noted_step h source step
    obtain ⟨last, others, noted⟩ := ih noted ht
    exact ⟨last, by rw [Builder.takeAll, taken]; exact others, noted⟩

end Stack

/-- The builder of a run, whether or not it is stopped by an error, is that of the tokens taken. -/
theorem Builder.exists_taken (b : Builder) (tokens : List Token) :
    ∃ before after, tokens = before ++ after ∧
      b.takeAll before = (.ok (), (b.takeAll tokens).2) := by
  induction tokens generalizing b with
  | nil => exact ⟨[], [], rfl, rfl⟩
  | cons token rest ih =>
    cases taken : b.take token with
    | error error => exact ⟨[], token :: rest, rfl, by rw [takeAll, takeAll, taken]⟩
    | ok next =>
      obtain ⟨before, after, split, run⟩ := ih next
      refine ⟨token :: before, after, by rw [split]; rfl, ?_⟩
      rw [takeAll, takeAll, taken]
      exact run

/-- Evaluation turn by turn: a reduction is told of as soon as it has been made, one that fails is
not. -/
inductive Tree.Tells : Tree → List String → Except Error Number → Prop
  | number {id : Nat} {n : Number} : Tells (.leaf id n) [] (.ok n)
  | error {tree : Tree} {error : Error} (unfinished : ∀ id n, tree ≠ .leaf id n)
      (failed : tree.reduceOnce = .error error) : Tells tree [] (.error error)
  | turn {tree after : Tree} {reduction : Reduction} {lines : List String}
      {outcome : Except Error Number} (reduced : tree.reduceOnce = .ok (reduction, after))
      (others : Tells after lines outcome) :
      Tells tree (("performing operation: " ++ reduction.text) :: lines) outcome

theorem Session.Runs.tells {session stop : Session} {tree : Tree} {outcome : Except Error Number}
    (h : Runs session tree outcome stop) (recording : session.recording = true) :
    ∃ steps, stop.steps = session.steps ++ steps ∧
      tree.Tells (steps.map fun r => "performing operation: " ++ r.text) outcome := by
  induction h with
  | number => exact ⟨[], (List.append_nil _).symm, .number⟩
  | error unfinished failed => exact ⟨[], (List.append_nil _).symm, .error unfinished failed⟩
  | @turn session stop tree after reduction outcome reduced _ ih =>
    have keeps : session.keep [reduction] =
        { session with steps := session.steps ++ [reduction] } := if_pos recording
    rw [keeps] at ih
    obtain ⟨steps, kept, tells⟩ := ih recording
    exact ⟨reduction :: steps, by rw [kept, List.append_assoc]; rfl, .turn reduced tells⟩

theorem Session.tells_start (tree : Tree) :
    tree.Tells
      (((Session.start true).evaluate tree).2.steps.map fun r =>
        "performing operation: " ++ r.text)
      ((Session.start true).evaluate tree).1 := by
  obtain ⟨steps, kept, tells⟩ := ((Session.start true).runs_evaluate tree).tells rfl
  rw [kept]
  exact tells

section Parse
variable {source : String} {symbols : Numeral.Symbols}

theorem noted_of_takeAll {before after : List Token} {b : Builder}
    (split : (Scanner.ofSource source symbols).scan.1 = before ++ after)
    (reached : (Builder.start source).takeAll before = (.ok (), b)) :
    ∃ s, Stack.start.takeAll before = some s ∧ b = s.builder source b.placements ∧
      s.Noted b.placements := by
  obtain ⟨s, -, hs, -⟩ := Stack.exists_of_takeAll split reached
  obtain ⟨placements, run, noted⟩ := Stack.noted_takeAll Stack.noted_start source hs
  have same : b = s.builder source placements := congrArg Prod.snd (reached.symm.trans run)
  rw [same]
  exact ⟨s, hs, rfl, noted⟩

theorem operationIds_builder {s : Stack} {contents : List Content} (lists : s.Lists contents)
    (placements : List Placement) :
    operationIds (s.builder source placements).tree.sourceOrder =
      operationIds (spineOrder s.frames) :=
  congrArg operationIds (sourceOrder_assemble_hole lists.upright)

theorem operationIds_finish {s : Stack} {contents : List Content} (lists : s.Lists contents)
    {tree : Tree} (h : s.finish = some tree) :
    operationIds tree.sourceOrder = operationIds (spineOrder s.frames) := by
  obtain ⟨id, n, rfl⟩ := lists.exists_assemble h
  rw [sourceOrder_assemble lists.upright, operationIds_append, operationIds_leaf, List.append_nil]

theorem placements_of_takeAll {before after : List Token} {b : Builder}
    (split : (Scanner.ofSource source symbols).scan.1 = before ++ after)
    (reached : (Builder.start source).takeAll before = (.ok (), b)) :
    b.placements.reverse.map Placement.id = (operationIds b.tree.sourceOrder).tail ∧
      (operationIds b.tree.sourceOrder).Pairwise (· < ·) := by
  obtain ⟨s, -, same, -, ⟨contents, lists⟩, names⟩ := noted_of_takeAll split reached
  rw [same, operationIds_builder lists, List.map_reverse]
  exact ⟨names, lists.sorted.sublist (operationIds_sublist _)⟩

variable (source symbols)

theorem placements_parse :
    (parse source symbols).placements = ((Builder.start source).takeAll
      (Scanner.ofSource source symbols).scan.1).2.placements.reverse := by
  simp only [parse, Scanner.parse]
  rw [show (Scanner.ofSource source symbols).source = source from rfl]
  split
  next stopped => rw [stopped]
  next stopped => rw [stopped]

/-- The last operand is no operation: the tree has those that it had when the tokens ended. -/
theorem operationIds_of_parse {tree : Tree} (h : (parse source symbols).tree = .ok tree) :
    operationIds tree.sourceOrder = operationIds ((Builder.start source).takeAll
      (Scanner.ofSource source symbols).scan.1).2.tree.sourceOrder := by
  obtain ⟨final, s, -, hs, finished⟩ := parse_eq_ok_iff.mp h
  have lists := Stack.lists_of_takeAll hs
  obtain ⟨placements, run, -⟩ := Stack.noted_takeAll Stack.noted_start source hs
  change (Builder.start source).takeAll _ = _ at run
  rw [run, operationIds_finish lists finished, operationIds_builder lists]

end Parse

theorem Placement.exists_text (p : Placement) :
    ∃ rest, p.text = "node " ++ Numeral.natText p.id ++ " (level " ++ rest := by
  obtain ⟨id, level, site⟩ := p
  cases site <;> simp only [text, String.append_assoc] <;> exact ⟨_, rfl⟩

namespace Calculation
variable {source : String} {symbols : Numeral.Symbols}

theorem placements_ofSource :
    (ofSource source symbols).placements = (parse source symbols).placements := by
  rw [ofSource]
  cases (parse source symbols).tree <;> rfl

theorem source_ofSource : (ofSource source symbols).source = source := by
  rw [ofSource]
  cases (parse source symbols).tree <;> rfl

theorem reductions_of_tree_error {error : Error}
    (h : (ofSource source symbols).tree = .error error) :
    (ofSource source symbols).reductions = [] := by
  rw [tree_ofSource] at h
  rw [ofSource, h]

theorem evaluate_of_tree {tree : Tree} (h : (ofSource source symbols).tree = .ok tree) :
    (Session.start true).evaluate tree =
      ((ofSource source symbols).outcome, ⟨true, (ofSource source symbols).reductions⟩) := by
  rw [tree_ofSource] at h
  rw [ofSource, h]
  rfl

/-- What of a log can be seen: how detailed it has to be for an entry, and its message. -/
def told (calculation : Calculation) (detail : Log.Detail) (showTree : Bool) :
    List (Log.Detail × String) :=
  (calculation.log detail showTree).map fun entry => (entry.detail, entry.message)

/-- Where the operations went. -/
def toldPlacements (calculation : Calculation) : List (Log.Detail × String) :=
  calculation.placements.map fun p => (.trace, p.text)

theorem told_trace (calculation : Calculation) (showTree : Bool) :
    calculation.told .trace showTree =
      (calculation.events showTree).map fun entry => (entry.detail, entry.message) := by
  rw [told, log]
  congr 1
  exact List.filter_eq_self.mpr fun _ _ => rfl

/-- A log of less detail leaves entries out and changes none. -/
theorem told_debug (calculation : Calculation) (showTree : Bool) :
    calculation.told .debug showTree =
      (calculation.told .trace showTree).filter fun line => line.1 = .debug := by
  rw [told_trace, told, log, List.filter_map]
  congr 1

theorem told_of_tree_error {calculation : Calculation} {error : Error}
    (h : calculation.tree = .error error) (none : calculation.reductions = []) (showTree : Bool) :
    calculation.told .trace showTree = calculation.toldPlacements := by
  simp only [told_trace, events, h, none, List.map_nil, List.append_nil, List.map_map]
  rfl

theorem told_of_tree {calculation : Calculation} {tree : Tree} (h : calculation.tree = .ok tree)
    (showTree : Bool) :
    calculation.told .trace showTree = calculation.toldPlacements ++
      (if showTree then
        [(.debug, "expression tree for '" ++ calculation.source ++ "':\n" ++ tree.dump)] else []) ++
      calculation.reductions.map fun r => (.debug, "performing operation: " ++ r.text) := by
  simp only [told_trace, events, h, List.map_append, List.map_map]
  congr 2
  cases showTree <;> rfl

end Calculation

theorem CommandLine.answer_debug (options : Options) (source : String) :
    let quiet := answer { options with debug := false } source
    answer { options with debug := true } source = ⟨quiet.output,
      String.join (((Calculation.ofSource source options.symbols).log .debug true).map logLine) ++
        quiet.errors, quiet.exitCode⟩ := by
  have symbols (debug : Bool) : Options.symbols { options with debug := debug } = options.symbols :=
    rfl
  simp only [answer, symbols]
  cases (Calculation.ofSource source options.symbols).text with
  | ok text => simp
  | error error => simp [String.append_assoc]

/-- The log says what happened, no more and no less and in that order. -/
theorem log_tells_what_happened (source : String) (symbols : Numeral.Symbols) (showTree : Bool) :
    let calculation := Calculation.ofSource source symbols
    let stop := ((Builder.start source).takeAll (Scanner.ofSource source symbols).scan.1).2
    (calculation.placements.map Placement.id = (operationIds stop.tree.sourceOrder).tail ∧
      (operationIds stop.tree.sourceOrder).Pairwise (· < ·) ∧
      ∀ p : Placement, ∃ rest, p.text = "node " ++ Numeral.natText p.id ++ " (level " ++ rest) ∧
    (∀ error, calculation.tree = .error error →
      calculation.outcome = .error error ∧
      calculation.told .trace showTree = calculation.toldPlacements) ∧
    (∀ tree, calculation.tree = .ok tree →
      operationIds tree.sourceOrder = operationIds stop.tree.sourceOrder ∧
      ∃ steps : List Reduction,
        calculation.told .trace showTree = calculation.toldPlacements ++
          (if showTree then
            [(.debug, "expression tree for '" ++ source ++ "':\n" ++ tree.dump)] else []) ++
          steps.map (fun r => (.debug, "performing operation: " ++ r.text)) ∧
        tree.Tells (steps.map fun r => "performing operation: " ++ r.text) calculation.outcome ∧
        ∀ recording, (Session.start recording).evaluate tree =
          (calculation.outcome, ⟨recording, if recording then steps else []⟩)) ∧
    calculation.told .debug showTree =
      (calculation.told .trace showTree).filter (fun line => line.1 = .debug) ∧
    ∀ options : CommandLine.Options, options.symbols = symbols →
      let quiet := CommandLine.answer { options with debug := false } source
      CommandLine.answer { options with debug := true } source = ⟨quiet.output,
        String.join ((calculation.log .debug true).map CommandLine.logLine) ++ quiet.errors,
        quiet.exitCode⟩ := by
  intro calculation stop
  obtain ⟨before, after, split, reached⟩ := Builder.exists_taken (Builder.start source)
    (Scanner.ofSource source symbols).scan.1
  obtain ⟨names, sorted⟩ := placements_of_takeAll split reached
  refine ⟨⟨?_, sorted, Placement.exists_text⟩, fun error h => ⟨?_, ?_⟩,
    fun tree h => ⟨?_, calculation.reductions, ?_, ?_, fun recording => ?_⟩,
    calculation.told_debug showTree, ?_⟩
  · rw [Calculation.placements_ofSource, placements_parse]
    exact names
  · exact Calculation.outcome_of_tree_error h
  · exact Calculation.told_of_tree_error h (Calculation.reductions_of_tree_error h) showTree
  · exact operationIds_of_parse source symbols (Calculation.tree_ofSource.symm.trans h)
  · have told := Calculation.told_of_tree h showTree
    rwa [Calculation.source_ofSource] at told
  · have tells := Session.tells_start tree
    rwa [Calculation.evaluate_of_tree h] at tells
  · have evaluated := Calculation.evaluate_of_tree h
    cases recording with
    | true => exact evaluated
    | false => exact congrArg (·, _) (congrArg Prod.fst evaluated)
  · rintro options rfl
    exact CommandLine.answer_debug options source

/-- A negated group divided by zero: neither the first operation nor the division is told of. -/
theorem log_of_zero_divisor :
    let calculation := Calculation.ofSource "-(6)/(2-2)" .standard
    calculation.placements.map Placement.id = [3, 5] ∧
      ∃ tree, calculation.tree = .ok tree ∧ operationIds tree.sourceOrder = [1, 3, 5] ∧
        calculation.told .trace false =
          [(.trace, "node 3 (level 1) becomes the root"),
            (.trace, "node 5 (level 3) goes below node 3"),
            (.debug, "performing operation: -1 * 6 = -6"),
            (.debug, "performing operation: 2 - 2 = 0")] ∧
        (Session.start false).evaluate tree = (.error .divisionByZero, ⟨false, []⟩) := by
  intro calculation
  obtain ⟨⟨names, -⟩, -, trees, -⟩ := log_tells_what_happened "-(6)/(2-2)" .standard false
  have h : calculation.tree = .ok
      (.op 3 .divide 1
        (.op 1 .multiply 2 (.leaf 0 (.integer (-1))) (.leaf 2 (.integer 6)))
        (.op 5 .subtract 3 (.leaf 4 (.integer 2)) (.leaf 6 (.integer 2)))) :=
    Calculation.tree_ofSource.trans (eq_ok_of_toOption (by decide +kernel))
  obtain ⟨ids, steps, told, -, sessions⟩ := trees _ h
  have kept := (sessions true).symm.trans (by decide +kernel :
    _ = (.error .divisionByZero, ⟨true, [⟨.integer (-1), .multiply, .integer 6, .integer (-6)⟩,
      ⟨.integer 2, .subtract, .integer 2, .integer 0⟩]⟩))
  obtain ⟨outcome, kept⟩ := Prod.mk.inj kept
  obtain rfl := congrArg Session.steps kept
  have placed : calculation.placements = [⟨3, 1, .root⟩, ⟨5, 3, .below 3⟩] := by decide +kernel
  refine ⟨names.trans (by decide +kernel), _, h, ids.trans (by decide +kernel), ?_, ?_⟩
  · rw [told, Calculation.toldPlacements, placed]
    decide +kernel
  · exact (sessions false).trans (congrArg (·, _) outcome)

end Reckoner

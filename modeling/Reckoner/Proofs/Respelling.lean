import Reckoner.Proofs.Caret

/-! The same clusters in other symbols, with grouping symbols put in. Main statement: scanners of the
one and of the other stay in step, call by call and over a whole scan; they find the same tokens and
the same errors, at most as many columns further on as symbols have been put in. -/
namespace Reckoner

namespace Numeral

/-- No grouping symbols, and read alike by either symbols. -/
structure Alike (symbols others : Symbols) (c d : String) : Prop where
  kept : symbols.isGrouping c = false
  kept' : others.isGrouping d = false
  space : Scanner.isSpace d = Scanner.isSpace c
  digit : isDigit d = isDigit c
  point : isDigit c = false → others.isPoint d = symbols.isPoint c
  text : isDigit c = true ∨ symbols.isPoint c = false → d = c

/-- The second clusters are the first ones in other symbols, with so many grouping symbols put in,
none before a blank. -/
inductive Respelled (symbols others : Symbols) : Nat → List String → List String → Prop
  | nil : Respelled symbols others 0 [] []
  | grouping {n : Nat} {c d : String} {cs ds : List String} (hc : symbols.isGrouping c = true)
      (hd : others.isGrouping d = true) (rest : Respelled symbols others n cs ds) :
      Respelled symbols others n (c :: cs) (d :: ds)
  | alike {n : Nat} {c d : String} {cs ds : List String} (alike : Alike symbols others c d)
      (rest : Respelled symbols others n cs ds) : Respelled symbols others n (c :: cs) (d :: ds)
  | inserted {n : Nat} {d : String} {cs ds : List String} (hd : others.isGrouping d = true)
      (ahead : ∀ c ∈ cs.head?, Scanner.isSpace c = false) (rest : Respelled symbols others n cs ds) :
      Respelled symbols others (n + 1) cs (d :: ds)

namespace Respelled
variable {symbols others : Symbols} {n : Nat} {cs ds : List String}

theorem length_eq (h : Respelled symbols others n cs ds) : ds.length = cs.length + n := by
  induction h with
  | nil => rfl
  | grouping _ _ _ ih | alike _ _ ih | inserted _ _ _ ih =>
    simp only [List.length_cons, ih]
    omega

theorem drops_grouping {c : String} (h : symbols.isGrouping c = true) : symbols.drops c = true := by
  rw [Symbols.drops, h, Bool.or_true]

theorem dropWhile (h : Respelled symbols others n cs ds) :
    ∃ m ≤ n, Respelled symbols others m (cs.dropWhile symbols.drops)
      (ds.dropWhile others.drops) := by
  induction h with
  | nil => exact ⟨0, le_rfl, .nil⟩
  | grouping hc hd _ ih =>
    rwa [List.dropWhile_cons_of_pos (drops_grouping hc),
      List.dropWhile_cons_of_pos (drops_grouping hd)]
  | @alike n c d cs ds alike rest ih =>
    have same : others.drops d = symbols.drops c := by
      rw [Symbols.drops, Symbols.drops, alike.kept, alike.kept', alike.space]
    cases dropped : symbols.drops c with
    | true =>
      rwa [List.dropWhile_cons_of_pos dropped, List.dropWhile_cons_of_pos (same.trans dropped)]
    | false =>
      rw [List.dropWhile_cons_of_neg (by simp [dropped]),
        List.dropWhile_cons_of_neg (by simp [same, dropped])]
      exact ⟨n, le_rfl, .alike alike rest⟩
  | inserted hd _ _ ih =>
    obtain ⟨m, hm, h⟩ := ih
    rw [List.dropWhile_cons_of_pos (drops_grouping hd)]
    exact ⟨m, by omega, h⟩

end Respelled
end Numeral

namespace Scanner
open Numeral (Respelled Alike)
variable {s t : Scanner} {k : Nat}

/-- The second scanner has the clusters of the first before it in its own symbols; in all, so many
grouping symbols have been put in. -/
structure InStep (k : Nat) (s t : Scanner) : Prop where
  rest : ∃ n ≤ k, Respelled s.symbols t.symbols n s.rest t.rest
  total : t.cursor + t.rest.length = s.cursor + s.rest.length + k

theorem InStep.cursor (h : InStep k s t) : s.cursor ≤ t.cursor ∧ t.cursor ≤ s.cursor + k := by
  obtain ⟨⟨n, le, rest⟩, total⟩ := h
  have length := rest.length_eq
  omega

theorem InStep.passes {s' t' : Scanner} {passed passed' : List String} (h : InStep k s t)
    (hs : s.Passes passed s') (ht : t.Passes passed' t')
    (rest : ∃ n ≤ k, Respelled s.symbols t.symbols n s'.rest t'.rest) : InStep k s' t' := by
  refine ⟨by rwa [hs.symbols, ht.symbols], ?_⟩
  have total := h.total
  rw [hs.rest, ht.rest, List.length_append, List.length_append] at total
  rw [hs.cursor, ht.cursor]
  omega

theorem InStep.skip (h : InStep k s t) : InStep k s.skip t.skip := by
  refine h.passes s.passes_skip t.passes_skip ?_
  obtain ⟨n, le, rest⟩ := h.rest
  obtain ⟨m, le', rest⟩ := rest.dropWhile
  exact ⟨m, le'.trans le, rest⟩

theorem skipGroup_eq_self (h : s.Ungrouped) : s.skipGroup = s := by
  unfold skipGroup
  split
  next c rest here => rw [h c rest here, if_neg Bool.false_ne_true]
  next => rfl

theorem skipGroup_eq_skip {c : String} {rest : List String} (here : s.rest = c :: rest)
    (h : s.symbols.isGrouping c = true) : s.skipGroup = s.skip := by
  unfold skipGroup
  rw [here]
  exact if_pos h

/-- Before anything but a blank, a numeral goes on where the next token begins. -/
theorem skipGroup_eq_skip_of_ahead (h : ∀ c ∈ s.rest.head?, isSpace c = false) :
    s.skipGroup = s.skip := by
  by_cases ungrouped : s.Ungrouped
  · have settled : s.Settled := by
      intro c rest here
      rw [Numeral.Symbols.drops, h c (by simp [here]), ungrouped c rest here]
      rfl
    rw [skipGroup_eq_self ungrouped, skip_eq_self settled]
  · simp only [Ungrouped, not_forall, Bool.not_eq_false] at ungrouped
    obtain ⟨c, rest, here, grouping⟩ := ungrouped
    exact skipGroup_eq_skip here grouping

theorem InStep.skipGroup (h : InStep k s t) : InStep k s.skipGroup t.skipGroup := by
  have skip := h.skip
  obtain ⟨n, -, rest⟩ := h.rest
  generalize hs : s.rest = cs, ht : t.rest = ds at rest
  cases rest with
  | nil =>
    rwa [skipGroup_eq_self (by simp [Ungrouped, hs]), skipGroup_eq_self (by simp [Ungrouped, ht])]
  | grouping hc hd => rwa [skipGroup_eq_skip hs hc, skipGroup_eq_skip ht hd]
  | alike alike =>
    have kept : s.Ungrouped := by
      rintro c rest here
      obtain ⟨rfl, -⟩ := List.cons.inj (hs.symm.trans here)
      exact alike.kept
    have kept' : t.Ungrouped := by
      rintro c rest here
      obtain ⟨rfl, -⟩ := List.cons.inj (ht.symm.trans here)
      exact alike.kept'
    rwa [skipGroup_eq_self kept, skipGroup_eq_self kept']
  | inserted hd ahead =>
    -- Blanks are skipped on this side only, but on the other side no blank comes next.
    rw [← hs] at ahead
    rwa [skipGroup_eq_skip_of_ahead ahead, skipGroup_eq_skip ht hd]

theorem InStep.ahead_nil (h : InStep k s t) (kept' : t.Ungrouped) (here : s.rest = []) :
    t.rest = [] := by
  obtain ⟨n, le, rest⟩ := h.rest
  rw [here] at rest
  generalize ht : t.rest = ds at rest
  cases rest with
  | nil => rfl
  | inserted hd => simp [kept' _ _ ht] at hd

theorem InStep.ahead_cons {c : String} {cs : List String} (h : InStep k s t)
    (kept : s.Ungrouped) (kept' : t.Ungrouped) (here : s.rest = c :: cs) :
    ∃ d ds, t.rest = d :: ds ∧ Alike s.symbols t.symbols c d ∧ InStep k s.advance t.advance := by
  obtain ⟨n, le, rest⟩ := h.rest
  rw [here] at rest
  generalize ht : t.rest = ds at rest
  cases rest with
  | grouping hc => simp [kept _ _ here] at hc
  | @alike n c d cs ds alike rest =>
    refine ⟨d, ds, rfl, alike, ?_⟩
    refine h.passes (passes_advance here) (passes_advance ht) ⟨n, le, ?_⟩
    simpa [advance, here, ht] using rest
  | inserted hd => simp [kept' _ _ ht] at hd

theorem numeral_of_nil (here : s.rest = []) (text : String) (pointed : Bool) :
    s.numeral text pointed = (some (text, pointed), s) := by
  rw [numeral]
  split
  · rfl
  next found => simp [here] at found

theorem numeral_of_cons {c : String} {rest : List String} (here : s.rest = c :: rest)
    (text : String) (pointed : Bool) :
    s.numeral text pointed =
      if Numeral.isDigit c then s.advance.skipGroup.numeral (text ++ c) pointed
      else if s.symbols.isPoint c then
        if pointed then (none, s) else s.advance.skipGroup.numeral (text.push '.') true
      else (some (text, pointed), s) := by
  rw [numeral]
  split
  next found => simp [here] at found
  next found =>
    obtain ⟨rfl, -⟩ := List.cons.inj (here.symm.trans found)
    rfl

theorem InStep.numeral (h : InStep k s t) (kept : s.Ungrouped) (kept' : t.Ungrouped)
    (text : String) (pointed : Bool) :
    (t.numeral text pointed).1 = (s.numeral text pointed).1 ∧
      InStep k (s.numeral text pointed).2 (t.numeral text pointed).2 := by
  fun_induction Scanner.numeral s text pointed generalizing t with
  | case1 s text pointed here =>
    rw [numeral_of_nil (h.ahead_nil kept' here)]
    exact ⟨rfl, h⟩
  | case2 s text pointed c rest here digit ih =>
    obtain ⟨d, ds, here', alike, next⟩ := h.ahead_cons kept kept' here
    rw [numeral_of_cons here', alike.digit, if_pos digit, alike.text (.inl digit)]
    exact ih next.skipGroup s.advance.ungrouped_skipGroup t.advance.ungrouped_skipGroup
  | case3 s text c rest here digit point =>
    obtain ⟨d, ds, here', alike, next⟩ := h.ahead_cons kept kept' here
    rw [numeral_of_cons here', alike.digit, if_neg digit, alike.point (by simpa using digit),
      if_pos point, if_pos rfl]
    exact ⟨rfl, h⟩
  | case4 s text pointed c rest here digit point unpointed ih =>
    obtain ⟨d, ds, here', alike, next⟩ := h.ahead_cons kept kept' here
    rw [numeral_of_cons here', alike.digit, if_neg digit, alike.point (by simpa using digit),
      if_pos point, if_neg unpointed]
    exact ih next.skipGroup s.advance.ungrouped_skipGroup t.advance.ungrouped_skipGroup
  | case5 s text pointed c rest here digit point =>
    obtain ⟨d, ds, here', alike, next⟩ := h.ahead_cons kept kept' here
    rw [numeral_of_cons here', alike.digit, if_neg digit, alike.point (by simpa using digit),
      if_neg point]
    exact ⟨rfl, h⟩

/-- The same token, at most so many columns further on. -/
structure Shifted (k : Nat) (a b : Token) : Prop where
  kind : b.kind = a.kind
  text : b.text = a.text
  least : a.column ≤ b.column
  most : b.column ≤ a.column + k

/-- The same token, or the same complaint about a place, at most so many columns further on. -/
inductive Agree (k : Nat) (source other : String) :
    Except Error Token → Except Error Token → Prop
  | token {a b : Token} (shifted : Shifted k a b) : Agree k source other (.ok a) (.ok b)
  | error {make : String → Error} {message : String} {column column' : Nat}
      (kind : make = .malformedNumber ∨ make = .characterTooLarge)
      (least : column ≤ column') (most : column' ≤ column + k) :
      Agree k source other (.error (make (Text.pointAt message source column)))
        (.error (make (Text.pointAt message other column')))

theorem InStep.report (h : InStep k s t) {make : String → Error}
    (kind : make = .malformedNumber ∨ make = .characterTooLarge) (message : String) (shift : Int) :
    Agree k s.source t.source (.error (make (s.report message shift)))
      (.error (make (t.report message shift))) := by
  obtain ⟨least, most⟩ := h.cursor
  exact .error kind (by omega) (by omega)

theorem InStep.scanNumeral (h : InStep k s t) (kept : s.Ungrouped) (kept' : t.Ungrouped) :
    Agree k s.source t.source s.scanNumeral.1 t.scanNumeral.1 ∧
      InStep k s.scanNumeral.2 t.scanNumeral.2 := by
  obtain ⟨same, stop⟩ := h.numeral kept kept' "" false
  obtain ⟨_, gathers⟩ := gathers_numeral kept "" false
  obtain ⟨_, gathers'⟩ := gathers_numeral kept' "" false
  have hs := gathers.passed.source
  have ht := gathers'.passed.source
  unfold Scanner.scanNumeral
  generalize s.numeral "" false = read at same stop hs ⊢
  generalize t.numeral "" false = read' at same stop ht ⊢
  obtain ⟨result, stopped⟩ := read
  obtain ⟨result', stopped'⟩ := read'
  dsimp only at same stop hs ht
  subst same
  rw [← hs, ← ht]
  cases result' with
  | none => exact ⟨stop.report (.inl rfl) .., stop⟩
  | some found =>
    dsimp only
    split
    · exact ⟨stop.report (.inl rfl) .., stop⟩
    · exact ⟨.token ⟨rfl, rfl, h.cursor.1, h.cursor.2⟩, stop⟩

theorem InStep.tokenHere (h : InStep k s t) (kept : s.Ungrouped) (kept' : t.Ungrouped) :
    Agree k s.source t.source s.tokenHere.1 t.tokenHere.1 ∧
      InStep k s.tokenHere.2 t.tokenHere.2 := by
  unfold Scanner.tokenHere
  split
  next here =>
    rw [h.ahead_nil kept' here]
    exact ⟨.token ⟨rfl, rfl, h.cursor.1, h.cursor.2⟩, h⟩
  next c rest here =>
    obtain ⟨d, ds, here', alike, next⟩ := h.ahead_cons kept kept' here
    have starts : t.startsNumeral d = s.startsNumeral c := by
      rw [startsNumeral, startsNumeral, alike.digit]
      cases digit : Numeral.isDigit c with
      | true => rfl
      | false => exact alike.point digit
    rw [here']
    dsimp only
    rw [starts]
    split
    next => exact h.scanNumeral kept kept'
    next other =>
      have point : s.symbols.isPoint c = false :=
        (Bool.or_eq_false_iff.mp (Bool.eq_false_iff.mpr other)).2
      rw [alike.text (.inr point)]
      split
      · exact ⟨.token ⟨rfl, rfl, h.cursor.1, h.cursor.2⟩, next⟩
      · exact ⟨h.report (.inr rfl) .., h⟩

theorem InStep.next (h : InStep k s t) :
    Agree k s.source t.source s.next.1 t.next.1 ∧ InStep k s.next.2 t.next.2 :=
  h.skip.tokenHere s.settled_skip.ungrouped t.settled_skip.ungrouped

theorem InStep.after (h : InStep k s t) (calls : Nat) :
    InStep k (s.after calls) (t.after calls) := by
  induction calls generalizing s t with
  | zero => exact h
  | succ calls ih => exact ih h.next.2

theorem scan_of_next (s : Scanner) :
    s.scan = match s.next with
      | (.error error, stop) => ([], .error error, stop)
      | (.ok token, stop) =>
        if token.kind = .endOfInput then ([], .ok token, stop)
        else (token :: stop.scan.1, stop.scan.2) := by
  rw [scan]
  split
  next hn => rw [hn]
  next hn =>
    rw [hn]
    dsimp only
    split <;> rfl

theorem InStep.scan (h : InStep k s t) :
    List.Forall₂ (Shifted k) s.scan.1 t.scan.1 ∧
      Agree k s.source t.source s.scan.2.1 t.scan.2.1 := by
  fun_induction Scanner.scan s generalizing t with
  | case1 s error stop hn =>
    have agree := h.next.1
    rw [hn] at agree
    rw [scan_of_next t]
    generalize t.next = answer at agree ⊢
    obtain ⟨found, stop'⟩ := answer
    cases agree with
    | error kind least most => exact ⟨.nil, .error kind least most⟩
  | case2 s last stop hn ended =>
    have agree := h.next.1
    rw [hn] at agree
    rw [scan_of_next t]
    generalize t.next = answer at agree ⊢
    obtain ⟨found, stop'⟩ := answer
    cases agree with
    | token shifted =>
      dsimp only
      rw [shifted.kind, if_pos ended]
      exact ⟨.nil, .token shifted⟩
  | case3 s token stop hn before others last hs ih =>
    obtain ⟨agree, stops⟩ := h.next
    obtain ⟨_, passed⟩ := s.exists_passes_next
    obtain ⟨_, passed'⟩ := t.exists_passes_next
    have source := passed.source
    have source' := passed'.source
    rw [hn] at agree stops source
    rw [scan_of_next t]
    generalize t.next = answer at agree stops source' ⊢
    obtain ⟨found, stop'⟩ := answer
    cases agree with
    | token shifted =>
      dsimp only
      rw [shifted.kind, if_neg before]
      obtain ⟨tokens, ends⟩ := ih stops
      rw [hs] at tokens ends
      rw [source, source'] at ends
      exact ⟨.cons shifted tokens, ends⟩

end Scanner
end Reckoner

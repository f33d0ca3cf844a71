import Mathlib.Data.List.Basic
import Reckoner.Proofs.RoundTrip
import Reckoner.Tree.Dump

/-! Drawings of trees. Main statements: what is drawn from a list of pending subtrees is what
recursion over the tree draws, with a line for each node; and the drawing tells the shape of the
tree, its operators and the texts of its numbers. -/
namespace Reckoner

/-- The text of a numeral holds a letter or digit, which no operator does. -/
def Text.Worded (text : String) : Prop :=
  ∃ c ∈ text.toList, c.isAlphanum = true

namespace Numeral
open Text

theorem worded_natText (n : Nat) : Worded (natText n) := by
  obtain ⟨c, rest, hd⟩ := List.exists_cons_of_ne_nil (digits_ne_nil n)
  have mem : c ∈ digits n := hd ▸ List.mem_cons_self
  refine ⟨c, by simpa [natText] using mem, ?_⟩
  rw [Char.isAlphanum, isDigit_of_mem_digits mem, Bool.or_true]

theorem worded_append_left {text : String} (h : Worded text) (before : String) :
    Worded (before ++ text) := by
  obtain ⟨c, mem, hc⟩ := h
  exact ⟨c, by simp [mem], hc⟩

theorem worded_append_right {text : String} (h : Worded text) (behind : String) :
    Worded (text ++ behind) := by
  obtain ⟨c, mem, hc⟩ := h
  exact ⟨c, by simp [mem], hc⟩

theorem worded_intText (n : Int) : Worded (intText n) := by
  unfold intText
  split
  · exact worded_append_left (worded_natText _) _
  · exact worded_natText _

theorem worded_fixedText (places : Nat) (x : Float) : Worded (fixedText places x) := by
  unfold fixedText
  dsimp only
  split
  · rw [pointedText, String.append_assoc]
    exact worded_append_left (worded_append_right (worded_natText _) _) _
  · split
    · exact ⟨'N', by decide, by decide⟩
    · exact worded_append_left ⟨'i', by decide, by decide⟩ _

theorem isPrintable_append {a b : String} (ha : ∀ c ∈ a.toList, IsPrintable c)
    (hb : ∀ c ∈ b.toList, IsPrintable c) : ∀ c ∈ (a ++ b).toList, IsPrintable c := by
  rw [String.toList_append]
  exact List.forall_mem_append.mpr ⟨ha, hb⟩

theorem isPrintable_pointedText (places units : Nat) :
    ∀ c ∈ (pointedText places units).toList, IsPrintable c := by
  unfold pointedText paddedDigits
  refine isPrintable_append (isPrintable_append (isPrintable_natText _)
    (printable_of_all (by decide))) ?_
  rw [String.toList_ofList]
  refine List.forall_mem_append.mpr ⟨?_, ?_⟩
  · intro c mem
    rw [List.eq_of_mem_replicate mem]
    decide
  · exact fun c mem => isPrintable_of_isDigit (isDigit_of_mem_digits mem)

theorem isPrintable_fixedText (places : Nat) (x : Float) :
    ∀ c ∈ (fixedText places x).toList, IsPrintable c := by
  unfold fixedText
  dsimp only
  have sign : ∀ c ∈ (if x.toBits.toNat >>> 63 = 1 then "-" else "").toList, IsPrintable c := by
    split <;> exact printable_of_all (by decide)
  split
  · exact isPrintable_append sign (isPrintable_pointedText _ _)
  · split
    · exact printable_of_all (by decide)
    · exact isPrintable_append sign (printable_of_all (by decide))

end Numeral

namespace Number

theorem isPrintable_text (n : Number) : ∀ c ∈ n.text.toList, Text.IsPrintable c := by
  cases n with
  | integer w => exact Numeral.isPrintable_intText _
  | float x => exact Numeral.isPrintable_fixedText _ x
  | fraction f => exact f.isPrintable_text

theorem worded_text (n : Number) : Text.Worded n.text := by
  cases n with
  | integer w => exact Numeral.worded_intText _
  | float x => exact Numeral.worded_fixedText _ x
  | fraction f => exact Numeral.worded_append_left (Numeral.worded_intText _) _

theorem text_ne_symbol (n : Number) (operator : Operator) : n.text ≠ operator.symbol := by
  intro h
  obtain ⟨c, mem, hc⟩ := n.worded_text
  have bare : operator.symbol.toList.all (fun c => !c.isAlphanum) = true := by
    cases operator <;> decide
  rw [h] at mem
  have plain := List.all_eq_true.mp bare c mem
  rw [hc] at plain
  contradiction

end Number

namespace Tree

/-- A line of a drawing: the mark tells on which side of its operation the node hangs. -/
def line (margin : String) (isLeft : Bool) (label : String) : String :=
  margin ++ (if isLeft then "├──" else "└──") ++ label ++ "\n"

/-- What stands before the lines of the operands. -/
def marginBelow (margin : String) (isLeft : Bool) : String :=
  margin ++ (if isLeft then "│   " else "    ")

/-- The drawing by recursion: the line of the node, then its left and its right operand. -/
def drawing (margin : String) (isLeft : Bool) : Tree → String
  | hole => ""
  | leaf _ n => line margin isLeft n.text
  | op _ operator _ left right =>
    line margin isLeft operator.symbol ++ left.drawing (marginBelow margin isLeft) true ++
      right.drawing (marginBelow margin isLeft) false

/-- The same shape with the same operators, and with numbers that read the same. -/
inductive Alike : Tree → Tree → Prop
  | leaf {i j : Nat} {m n : Number} (same : m.text = n.text) : Alike (leaf i m) (leaf j n)
  | op {i j : Nat} {operator : Operator} {k l : Level} {a b c d : Tree} (left : Alike a b)
      (right : Alike c d) : Alike (op i operator k a c) (op j operator l b d)

theorem join_lines (pending : List Pending) :
    String.join (lines pending) =
      String.join (pending.map fun p => p.tree.drawing p.margin p.isLeft) := by
  fun_induction lines pending with
  | case1 => rfl
  | case2 margin isLeft rest ih => simp [ih, drawing]
  | case3 id number margin isLeft rest ih =>
    rw [String.join_cons, ih, List.map_cons, String.join_cons]
    rfl
  | case4 id operator level left right margin isLeft rest node ih =>
    calc String.join (node.line :: _)
      _ = node.line ++ (left.drawing node.innerMargin true ++
            (right.drawing node.innerMargin false ++
              String.join (rest.map fun p => p.tree.drawing p.margin p.isLeft))) := by
          rw [String.join_cons, ih, List.map_cons, List.map_cons, String.join_cons, String.join_cons]
      _ = (op id operator level left right).drawing margin isLeft ++
            String.join (rest.map fun p => p.tree.drawing p.margin p.isLeft) := by
          rw [drawing, String.append_assoc, String.append_assoc]
          rfl
      _ = _ := by rw [List.map_cons, String.join_cons]

theorem dump_eq_drawing (tree : Tree) : tree.dump = tree.drawing "" false := by
  rw [dump, join_lines, List.map_singleton, String.join_cons]
  exact String.append_empty

section Lines

theorem newline_notMem {text : String} (printable : ∀ c ∈ text.toList, Text.IsPrintable c) :
    '\n' ∉ text.toList :=
  fun mem => absurd (printable _ mem) (by decide)

theorem newline_notMem_symbol (operator : Operator) : '\n' ∉ operator.symbol.toList := by
  cases operator <;> decide

theorem newline_notMem_marginBelow {margin : String} (h : '\n' ∉ margin.toList) (isLeft : Bool) :
    '\n' ∉ (marginBelow margin isLeft).toList := by
  rw [marginBelow, String.toList_append, List.mem_append, not_or]
  refine ⟨h, ?_⟩
  cases isLeft <;> decide

theorem count_line {margin label : String} (hm : '\n' ∉ margin.toList)
    (hl : '\n' ∉ label.toList) (isLeft : Bool) :
    (line margin isLeft label).toList.count '\n' = 1 := by
  have mark : '\n' ∉ (if isLeft then "├──" else "└──").toList := by cases isLeft <;> decide
  simp only [line, String.toList_append, List.count_append, List.count_eq_zero.mpr hm,
    List.count_eq_zero.mpr mark, List.count_eq_zero.mpr hl]
  decide

theorem count_drawing {margin : String} (hm : '\n' ∉ margin.toList) (isLeft : Bool)
    (tree : Tree) : (tree.drawing margin isLeft).toList.count '\n' = tree.ids.length := by
  induction tree generalizing margin isLeft with
  | hole => rfl
  | leaf id n => exact count_line hm (newline_notMem n.isPrintable_text) isLeft
  | op id operator level left right ihl ihr =>
    have hb := newline_notMem_marginBelow hm isLeft
    rw [drawing, String.toList_append, String.toList_append, List.count_append, List.count_append,
      count_line hm (newline_notMem_symbol operator), ihl hb, ihr hb, ids, List.length_cons,
      List.length_append]
    omega

theorem eq_of_append_newline {a b r s : List Char} (ha : '\n' ∉ a) (hb : '\n' ∉ b)
    (h : a ++ '\n' :: r = b ++ '\n' :: s) : a = b ∧ r = s := by
  induction a generalizing b with
  | nil =>
    cases b with
    | nil => exact ⟨rfl, List.tail_eq_of_cons_eq h⟩
    | cons d b => exact absurd (List.head_eq_of_cons_eq h ▸ List.mem_cons_self) hb
  | cons c a ih =>
    cases b with
    | nil => exact absurd (List.head_eq_of_cons_eq h ▸ List.mem_cons_self) ha
    | cons d b =>
      have tails := ih (fun mem => ha (.tail c mem)) (fun mem => hb (.tail d mem))
        (List.tail_eq_of_cons_eq h)
      rw [List.head_eq_of_cons_eq h, tails.1]
      exact ⟨rfl, tails.2⟩

theorem label_of_line {margin a b : String} {isLeft : Bool} (ha : '\n' ∉ a.toList)
    (hb : '\n' ∉ b.toList) {r s : List Char}
    (h : (line margin isLeft a).toList ++ r = (line margin isLeft b).toList ++ s) :
    a = b ∧ r = s := by
  simp only [line, String.toList_append, List.append_assoc, List.append_cancel_left_eq] at h
  have ends := eq_of_append_newline ha hb h
  exact ⟨String.toList_inj.mp ends.1, ends.2⟩

theorem toList_drawing_op (margin : String) (isLeft : Bool) (id : Nat) (operator : Operator)
    (level : Level) (left right : Tree) (r : List Char) :
    ((op id operator level left right).drawing margin isLeft).toList ++ r =
      (line margin isLeft operator.symbol).toList ++
        ((left.drawing (marginBelow margin isLeft) true).toList ++
          ((right.drawing (marginBelow margin isLeft) false).toList ++ r)) := by
  rw [drawing, String.toList_append, String.toList_append, List.append_assoc, List.append_assoc]

end Lines

/-- A drawing tells where it ends, whatever is drawn behind it. -/
theorem alike_of_drawing {a b : Tree} (ha : a.Complete) (hb : b.Complete) {margin : String}
    {isLeft : Bool} {r s : List Char}
    (h : (a.drawing margin isLeft).toList ++ r = (b.drawing margin isLeft).toList ++ s) :
    a.Alike b ∧ r = s := by
  induction a generalizing b margin isLeft r s with
  | hole => exact absurd ha.1 (by decide)
  | leaf i m =>
    have hm := newline_notMem m.isPrintable_text
    cases b with
    | hole => exact absurd hb.1 (by decide)
    | leaf j n =>
      obtain ⟨same, rest⟩ := label_of_line hm (newline_notMem n.isPrintable_text) h
      exact ⟨.leaf same, rest⟩
    | op j operator l c d =>
      rw [toList_drawing_op] at h
      have same := (label_of_line hm (newline_notMem_symbol operator) h).1
      exact absurd same (m.text_ne_symbol operator)
  | op i operator k a c ihl ihr =>
    obtain ⟨ha, hc⟩ := complete_op.mp ha
    have ho := newline_notMem_symbol operator
    rw [toList_drawing_op] at h
    cases b with
    | hole => exact absurd hb.1 (by decide)
    | leaf j n =>
      have same := (label_of_line ho (newline_notMem n.isPrintable_text) h).1
      exact absurd same.symm (n.text_ne_symbol operator)
    | op j other l b d =>
      have hbd := complete_op.mp hb
      rw [toList_drawing_op] at h
      obtain ⟨same, rest⟩ := label_of_line ho (newline_notMem_symbol other) h
      obtain rfl := Operator.symbol_injective same
      have lefts := ihl ha hbd.1 rest
      have rights := ihr hc hbd.2 lefts.2
      exact ⟨.op lefts.1 rights.1, rights.2⟩

theorem Alike.drawing_eq {a b : Tree} (h : a.Alike b) (margin : String) (isLeft : Bool) :
    a.drawing margin isLeft = b.drawing margin isLeft := by
  induction h generalizing margin isLeft with
  | leaf same => rw [drawing, drawing, same]
  | op _ _ ihl ihr => rw [drawing, drawing, ihl, ihr]

theorem dump_eq_iff {a b : Tree} (ha : a.Complete) (hb : b.Complete) :
    a.dump = b.dump ↔ a.Alike b := by
  rw [dump_eq_drawing, dump_eq_drawing]
  constructor
  · intro h
    have same : (a.drawing "" false).toList ++ [] = (b.drawing "" false).toList ++ [] := by rw [h]
    exact (alike_of_drawing ha hb same).1
  · exact fun h => h.drawing_eq "" false

end Tree

theorem nodup_of_parse {source : String} {symbols : Numeral.Symbols} {tree : Tree}
    (h : (parse source symbols).tree = .ok tree) : tree.ids.Nodup :=
  Tree.nodup_of_sourceOrder (sourceOrder_of_parse h).2

/-- The drawing of a parsed tree, made from a list of what is pending, is the one that recursion
makes; it has a line for each node, and of no other shape, operators or texts of numbers is a tree
drawn the same. -/
theorem drawing_of_parse {source other : String} {symbols others : Numeral.Symbols} {a b : Tree}
    (ha : (parse source symbols).tree = .ok a) (hb : (parse other others).tree = .ok b) :
    a.dump = a.drawing "" false ∧
      a.ids.Nodup ∧ a.dump.toList.count '\n' = a.ids.length ∧
      (a.dump = b.dump ↔ a.Alike b) := by
  refine ⟨a.dump_eq_drawing, nodup_of_parse ha, ?_, ?_⟩
  · rw [a.dump_eq_drawing]
    exact Tree.count_drawing (by decide) false a
  · exact Tree.dump_eq_iff (sourceOrder_of_parse ha).1 (sourceOrder_of_parse hb).1

/-- The operands of the product are exchanged in the one tree, so that their nodes bear other
numbers, but not the other way round on the page. -/
theorem drawing_of_exchanged :
    ∃ a b, (parse "2^2*3+1" .standard).tree = .ok a ∧ (parse "3*2^2+1" .standard).tree = .ok b ∧
      a ≠ b ∧ a.Alike b ∧ a.dump = b.dump ∧ a.dump.toList.count '\n' = 7 := by
  have ha : (parse "2^2*3+1" .standard).tree = .ok
      (.op 5 .add 0
        (.op 3 .multiply 1 (.leaf 4 (.integer 3))
          (.op 1 .power 2 (.leaf 0 (.integer 2)) (.leaf 2 (.integer 2))))
        (.leaf 6 (.integer 1))) :=
    eq_ok_of_toOption (by decide +kernel)
  have hb : (parse "3*2^2+1" .standard).tree = .ok
      (.op 5 .add 0
        (.op 1 .multiply 1 (.leaf 0 (.integer 3))
          (.op 3 .power 2 (.leaf 2 (.integer 2)) (.leaf 4 (.integer 2))))
        (.leaf 6 (.integer 1))) :=
    eq_ok_of_toOption (by decide +kernel)
  obtain ⟨-, -, lines, same⟩ := drawing_of_parse ha hb
  refine ⟨_, _, ha, hb, by decide, ?_, same.mpr ?_, lines⟩ <;>
    exact .op (.op (.leaf rfl) (.op (.leaf rfl) (.leaf rfl))) (.leaf rfl)

end Reckoner

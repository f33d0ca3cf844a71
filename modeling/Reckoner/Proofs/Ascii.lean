import Reckoner.Text.Cluster

/-! The clusters of ASCII texts. Main statement: behind an ASCII text, every printable ASCII character
is a cluster of its own. -/
namespace Reckoner.Text

/-- The printable characters of ASCII, with the blank. -/
def IsPrintable (c : Char) : Prop := 0x20 ≤ c.toNat ∧ c.toNat < 0x7F

instance (c : Char) : Decidable (IsPrintable c) := inferInstanceAs (Decidable (_ ∧ _))

theorem printable_of_all {text : String} (h : text.toList.all (decide <| IsPrintable ·) = true) :
    ∀ c ∈ text.toList, IsPrintable c :=
  fun c mem => of_decide_eq_true (List.all_eq_true.mp h c mem)

variable {c : Char}

theorem isPrintable_of_isDigit (h : c.isDigit) : IsPrintable c := by
  simp only [Char.isDigit, Bool.and_eq_true, decide_eq_true_eq, ge_iff_le, UInt32.le_iff_toNat_le]
    at h
  have low : 48 ≤ c.toNat := h.1
  have high : c.toNat ≤ 57 := h.2
  exact ⟨by omega, by omega⟩

theorem BreakClass.of_printable (h : IsPrintable c) : BreakClass.of c = .other := by
  have other : c ≠ '\r' ∧ c ≠ '\n' := by
    constructor <;> rintro rfl <;> exact absurd h (by decide)
  rw [BreakClass.of, if_neg other.1, if_neg other.2, if_pos]
  simpa [IsPrintable] using h

theorem BreakClass.of_ascii (h : c.toNat < 0x80) : BreakClass.of c ≠ .prepended := by
  have all : ∀ n < 0x80, BreakClass.of (Char.ofNat n) ≠ .prepended := by decide +kernel
  simpa using all c.toNat h

/-- Only a character that is put before others could take a printable one along. -/
theorem OpenCluster.joins_printable {cluster : OpenCluster} (h : cluster.last ≠ .prepended)
    (printable : IsPrintable c) : cluster.joins c = false := by
  have role : ConjunctRole.of c = .none := if_pos (Nat.lt_trans printable.2 (by decide))
  have syllable : joinsSyllable cluster.last .other = false := by
    cases cluster.last <;> rfl
  simp [joins, BreakClass.of_printable printable, role, syllable, h]

theorem OpenCluster.last_start (printable : IsPrintable c) : (start c).last ≠ .prepended := by
  simp [start, BreakClass.of_printable printable]

theorem groupFrom_printable {cluster : OpenCluster} (reversed : List Char) {more : List Char}
    (last : cluster.last ≠ .prepended) (printable : ∀ c ∈ more, IsPrintable c) :
    groupFrom cluster reversed more = reversed.reverse :: more.map fun c => [c] := by
  induction more generalizing cluster reversed with
  | nil => rfl
  | cons c more ih =>
    obtain ⟨here, behind⟩ := List.forall_mem_cons.mp printable
    rw [groupFrom, OpenCluster.joins_printable last here, if_neg Bool.false_ne_true,
      ih [c] (OpenCluster.last_start here) behind]
    rfl

theorem groupFrom_append {cluster : OpenCluster} (reversed : List Char) {text more : List Char}
    (last : cluster.last ≠ .prepended) (ascii : ∀ c ∈ text, c.toNat < 0x80)
    (printable : ∀ c ∈ more, IsPrintable c) :
    groupFrom cluster reversed (text ++ more) =
      groupFrom cluster reversed text ++ more.map fun c => [c] := by
  induction text generalizing cluster reversed with
  | nil => exact groupFrom_printable reversed last printable
  | cons c text ih =>
    obtain ⟨here, behind⟩ := List.forall_mem_cons.mp ascii
    have own := BreakClass.of_ascii here
    rw [List.cons_append, groupFrom, groupFrom]
    split
    · exact ih (c :: reversed) own behind
    · rw [ih [c] own behind, List.cons_append]

theorem group_append {text more : List Char} (ascii : ∀ c ∈ text, c.toNat < 0x80)
    (printable : ∀ c ∈ more, IsPrintable c) :
    group (text ++ more) = group text ++ more.map fun c => [c] := by
  cases text with
  | cons c text =>
    obtain ⟨here, behind⟩ := List.forall_mem_cons.mp ascii
    exact groupFrom_append [c] (BreakClass.of_ascii here) behind printable
  | nil =>
    cases more with
    | nil => rfl
    | cons c more =>
      obtain ⟨here, behind⟩ := List.forall_mem_cons.mp printable
      exact groupFrom_printable [c] (OpenCluster.last_start here) behind

/-- Each character of a text alone. -/
def characters (text : String) : List String := text.toList.map String.singleton

theorem clusters_append {text more : String} (ascii : ∀ c ∈ text.toList, c.toNat < 0x80)
    (printable : ∀ c ∈ more.toList, IsPrintable c) :
    clusters (text ++ more) = clusters text ++ characters more := by
  rw [clusters, String.toList_append, group_append ascii printable, List.map_append, List.map_map]
  rfl

theorem clusters_printable {text : String} (printable : ∀ c ∈ text.toList, IsPrintable c) :
    clusters text = characters text := by
  have alone : clusters ("" ++ text) = clusters "" ++ characters text :=
    clusters_append (by simp) printable
  rwa [String.empty_append, clusters_empty, List.nil_append] at alone

end Reckoner.Text

import StyleZones.Proofs.Path.Components

/-!
# Locations as a total preorder

The findings of a report are sorted by a comparison of their locations, which answers in three ways.
A sort needs the answers to fit together: `Location.compare_total_preorder` says that they do for
all locations, whatever texts their files are, and which locations tie. What the comparison looks at
in a file is its components, and what these are is settled by the laws of `Path.Reading`.
-/

set_option autoImplicit false

namespace StyleZones.Location

/-- One location comes before another: by the components of the files, then by line, then by
column. -/
def Before (a b : Location) : Prop :=
  List.Lex Path.Component.Precedes (Path.components a.file) (Path.components b.file) ∨
    Path.components a.file = Path.components b.file ∧
      (a.line < b.line ∨ a.line = b.line ∧ a.column < b.column)

theorem compare_self (a : Location) : a.compare a = .eq :=
  (compare_compares a a).eq_eq.2 rfl

/-- Seen from the other side, the answer is the reverse. -/
theorem compare_swap (a b : Location) : b.compare a = (a.compare b).swap :=
  (compare_compares b a).inj (compare_compares a b).swap

theorem compare_ne_gt_trans {a b c : Location} (hab : a.compare b ≠ .gt) (hbc : b.compare c ≠ .gt) :
    a.compare c ≠ .gt := by
  have hfirst : a.key ≤ b.key := (compare_compares a b).ne_gt.1 hab
  have hsecond : b.key ≤ c.key := (compare_compares b c).ne_gt.1 hbc
  exact (compare_compares a c).ne_gt.2 (hfirst.trans hsecond)

theorem compare_eq_eq_iff (a b : Location) :
    a.compare b = .eq ↔
      a.line = b.line ∧ a.column = b.column ∧ Path.components a.file = Path.components b.file := by
  rw [(compare_compares a b).eq_eq, key_eq_iff, samePlace, Bool.and_eq_true, Bool.and_eq_true,
    beq_iff_eq, beq_iff_eq, beq_iff_eq]
  constructor
  · rintro ⟨⟨hfile, hline⟩, hcolumn⟩
    exact ⟨hline, hcolumn, hfile⟩
  · rintro ⟨hline, hcolumn, hfile⟩
    exact ⟨⟨hfile, hline⟩, hcolumn⟩

theorem compare_eq_lt_iff (a b : Location) : a.compare b = .lt ↔ Before a b := by
  have hfile : Path.compare a.file b.file = .lt ↔
      List.Lex Path.Component.Precedes (Path.components a.file) (Path.components b.file) :=
    Path.compareComponents_eq_lt_iff _ _
  have htie : Path.compare a.file b.file = .eq ↔
      Path.components a.file = Path.components b.file := by
    rw [(Path.compare_compares a.file b.file).eq_eq, Path.key_eq_iff]
  have hline := compareOfLessAndEq_compares a.line.toNat b.line.toNat
  have hcolumn := compareOfLessAndEq_compares a.column.toNat b.column.toNat
  rw [compare, Ordering.then_eq_lt, Ordering.then_eq_lt, hfile, htie, hline.eq_lt, hline.eq_eq,
    hcolumn.eq_lt, ← UInt32.lt_iff_toNat_lt, UInt32.toNat_inj, ← UInt32.lt_iff_toNat_lt]
  rfl

/-- The comparison by which findings are sorted is a total preorder on all locations: a location
ties with itself, two locations compare the one way round as the other way round, and what does not
come after does so over any location between. Locations tie exactly if they have the same line, the
same column and the same components of their files; otherwise the components decide, the first that
differ counting, then the line and then the column. The components of a path are the one reading of
it in which repeated separators, separators at the end and dots but at the front are dropped, a
separator at the front is the root, and two dots are kept. -/
theorem compare_total_preorder :
    (∀ a b : Location, a.notAfter b = true ↔ a.compare b ≠ .gt) ∧
    (∀ a : Location, a.compare a = .eq) ∧
    (∀ a b : Location, b.compare a = (a.compare b).swap) ∧
    (∀ a b c : Location, a.compare b ≠ .gt → b.compare c ≠ .gt → a.compare c ≠ .gt) ∧
    (∀ a b : Location, a.compare b = .eq ↔
      a.line = b.line ∧ a.column = b.column ∧ Path.components a.file = Path.components b.file) ∧
    (∀ a b : Location, a.compare b = .lt ↔ Before a b) ∧
    Path.Reading Path.components ∧ ∀ read, Path.Reading read → read = Path.components := by
  refine ⟨fun a b => Ordering.ne_gt_iff_isLE.symm, compare_self, compare_swap,
    fun a b c => compare_ne_gt_trans, compare_eq_eq_iff, compare_eq_lt_iff,
    Path.reading_components, ?_⟩
  intro read hread
  exact hread.unique Path.reading_components

/-- A file that is written in two ways ties with itself. The directory `a` comes before `a-b`,
although the letters of a path say otherwise, and over a location between the two so does what
stands in it. -/
theorem compare_total_preorder_dotted :
    compare ⟨".//a/./x/", 3, 1⟩ ⟨"./a/x", 3, 1⟩ = .eq ∧
      compare ⟨"a/x", 3, 1⟩ ⟨"a//x/", 4, 1⟩ ≠ .gt ∧
      compare ⟨"a//x/", 4, 1⟩ ⟨"a-b/../x", 1, 1⟩ ≠ .gt ∧ compare ⟨"a/x", 3, 1⟩ ⟨"a-b/../x", 1, 1⟩ ≠
        .gt := by
  obtain ⟨-, -, -, htrans, htie, -, hreading, -⟩ := compare_total_preorder
  have hsame : Path.components ".//a/./x/" = Path.components "./a/x" :=
    calc Path.components ".//a/./x/"
        = Path.components ".//a/./x" := hreading.trailing ".//a/./x" (by decide)
      _ = Path.components ".//a/x" := hreading.dot ".//a" "x"
      _ = Path.components "./a/x" := hreading.repeated "." "a/x"
  have hfirst : compare ⟨"a/x", 3, 1⟩ ⟨"a//x/", 4, 1⟩ ≠ .gt := by decide
  have hsecond : compare ⟨"a//x/", 4, 1⟩ ⟨"a-b/../x", 1, 1⟩ ≠ .gt := by decide
  exact ⟨(htie _ _).2 ⟨rfl, rfl, hsame⟩, hfirst, hsecond, htrans _ _ _ hfirst hsecond⟩

end StyleZones.Location

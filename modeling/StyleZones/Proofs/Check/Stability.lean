import Mathlib.Tactic.ByContra
import StyleZones.Proofs.Check.Triage
import StyleZones.Proofs.Unit.Stability

/-!
# Decisions while a unit grows

The decision about a declaration reads the unit through `Tag.placed?`, the name of the declaration
and the zone of its position. The first two stay as they are while the unit grows, and the zone can
be another only after a line directive about the file in which the declaration was typed.

`SourceUnit.applyAll_stable` puts together what a run of edits leaves as it is and how the rest can
change.
-/

set_option autoImplicit false

namespace StyleZones

variable {u v : SourceUnit}

theorem SourceUnit.Extends.placed?_eq (h : u.Extends v) {d : Nat} (hd : d < u.decls.size) :
    Tag.placed? v d = Tag.placed? u d := by
  unfold Tag.placed?
  rw [h.entity d hd]

theorem Classifier.zoneOfPosition_applyAll (k : Classifier) (hu : u.WellFormed) {es : List Edit}
    {p : Nat} (hp : p < u.positions.size) (hnames : ¬ u.RenamedAt es (u.spelling p)) :
    k.zoneOfPosition (u.applyAll es) p = k.zoneOfPosition u p := by
  unfold zoneOfPosition
  rw [(u.extends_applyAll es).inSystemHeader_eq hu hp, SourceUnit.fileName?_applyAll hu hp hnames]

/-- The same becomes of a declaration, unless a line directive is about the file in which it was
typed. -/
theorem Checker.triage_applyAll (c : Checker) (real : RealPath) (hu : u.WellFormed) {es : List Edit}
    {d : Nat} (hd : d < u.decls.size)
    (hnames : ∀ p, u.position? d = some p → ¬ u.RenamedAt es (u.spelling p)) :
    c.triage real (u.applyAll es) d = c.triage real u d := by
  have h := u.extends_applyAll es
  cases hplaced : Tag.placed? u d with
  | none =>
    rw [c.triage_of_not_placed real hplaced]
    exact c.triage_of_not_placed real (h.placed?_eq hd ▸ hplaced)
  | some placed =>
    obtain ⟨tag, p⟩ := placed
    have hposition : u.position? d = some p := (Tag.placed_spec hplaced).2
    rw [c.triage_of_placed real hplaced, c.triage_of_placed real ((h.placed?_eq hd).trans hplaced),
      h.simpleName_eq hd, (c.classifier real).zoneOfPosition_applyAll hu (hu.position_lt hposition)
        (hnames p hposition)]

namespace SourceUnit

/-- What is asked about a declaration, up to its base classes, is the same in both units. -/
structure SameDecl (u v : SourceUnit) (d : Nat) : Prop where
  entity : v.entity? d = u.entity? d
  name : v.name? d = u.name? d
  parent : v.parent? d = u.parent? d
  position : v.position? d = u.position? d
  qualifiedName : v.qualifiedName d = u.qualifiedName d
  namespaceOf : ∀ mode, v.namespaceOf mode d = u.namespaceOf mode d

/-- What is asked about a position, up to names of files, is the same in both units. -/
structure SamePosition (u v : SourceUnit) (p : Nat) : Prop where
  spelling : v.spelling p = u.spelling p
  expansionLink : v.expansionLink? p = u.expansionLink? p
  expansionChain : v.expansionChain p = u.expansionChain p
  inSystemHeader : v.inSystemHeader p = u.inSystemHeader p
  lineAndColumn : (v.presumedLocation? p).map (fun l => (l.line, l.column)) =
    (u.presumedLocation? p).map fun l => (l.line, l.column)

theorem Extends.sameDecl (h : u.Extends v) (hu : u.WellFormed) {d : Nat} (hd : d < u.decls.size) :
    u.SameDecl v d where
  entity := h.entity d hd
  name := h.name?_eq hd
  parent := h.parent d hd
  position := h.position?_eq hd
  qualifiedName := h.qualifiedName_eq hd
  namespaceOf := fun mode => h.namespaceOf_eq hu mode hd

theorem Extends.samePosition (h : u.Extends v) (hu : u.WellFormed) {p : Nat}
    (hp : p < u.positions.size) :
    u.SamePosition v p where
  spelling := h.spelling_eq hp
  expansionLink := h.expansionLink?_eq hp
  expansionChain := h.expansionChain_eq hp
  inSystemHeader := h.inSystemHeader_eq hu hp
  lineAndColumn := h.presumedLine_eq hu hp

/-- What a run of edits does to the answers about the entries that are there before it. Nothing
changes about declarations but their base classes, and nothing about positions but names of files.
The list of classes and enumerations grows at its end, and what is found by name stays found. What
depends on the name of a file is another only after a line directive about that file. Base classes
of a declaration are added at the end and by edits about this declaration, and an ignored base class
is never lost, and gained only if base classes are added. -/
theorem applyAll_stable {hs : List Handle} (hu : Grown u hs) (es : List Edit) :
    (∀ d, d < u.decls.size → u.SameDecl (u.applyAll es) d) ∧
    (∀ p, p < u.positions.size → u.SamePosition (u.applyAll es) p) ∧
    u.tags <+: (u.applyAll es).tags ∧
    (∀ name d, u.find? name = some d → (u.applyAll es).find? name = some d) ∧
    (∀ p, p < u.positions.size →
      ((u.applyAll es).presumedLocation? p ≠ u.presumedLocation? p →
        u.RenamedAt es (u.expansionRoot p)) ∧
      ((u.applyAll es).fileName? p ≠ u.fileName? p → u.RenamedAt es (u.spelling p)) ∧
      (∀ k : Classifier, k.zoneOfPosition (u.applyAll es) p ≠ k.zoneOfPosition u p →
        u.RenamedAt es (u.spelling p)) ∧
      ((u.applyAll es).inImplementationFile p ≠ u.inImplementationFile p →
        ∃ q ∈ u.expansionChain p, u.RenamedAt es (u.spelling q))) ∧
    (∀ d, d < u.decls.size → ∀ (c : Checker) (real : RealPath),
      c.triage real (u.applyAll es) d ≠ c.triage real u d →
        ∃ p, u.position? d = some p ∧ u.RenamedAt es (u.spelling p)) ∧
    (∀ d, d < u.decls.size → (u.applyAll es).bases d = u.bases d ++ Edit.addedBases d es ∧
      ((u.applyAll es).bases d ≠ u.bases d → ∃ base, Edit.addBase d base ∈ es)) ∧
    ∀ (p : Policy) (d : Nat), d < u.decls.size →
      (u.hasIgnoredBase p d = true → (u.applyAll es).hasIgnoredBase p d = true) ∧
      ((u.applyAll es).hasIgnoredBase p d ≠ u.hasIgnoredBase p d →
        ∃ decl base, Edit.addBase decl base ∈ es) := by
  have hwf : u.WellFormed := hu.wellFormed
  have h : u.Extends (u.applyAll es) := u.extends_applyAll es
  have hbases : ∀ d, d < u.decls.size → (∀ base, Edit.addBase d base ∉ es) →
      (u.applyAll es).bases d = u.bases d := by
    intro d hd hnone
    rw [bases_applyAll es hd, Edit.addedBases_eq_nil hnone, List.append_nil]
  refine ⟨fun d hd => h.sameDecl hwf hd, fun p hp => h.samePosition hwf hp, h.tags_prefix,
    fun name d => h.find?_eq_some, fun p hp => ⟨?_, ?_, ?_, ?_⟩, ?_,
      fun d hd => ⟨bases_applyAll es hd, ?_⟩,
    fun p d hd => ⟨h.hasIgnoredBase, ?_⟩⟩
  -- In what follows, the answer would be the old one if the edit that is looked for were missing.
  · intro hne
    by_contra hnames
    exact hne (presumedLocation?_applyAll hwf hp hnames)
  · intro hne
    by_contra hnames
    exact hne (fileName?_applyAll hwf hp hnames)
  · intro k hne
    by_contra hnames
    exact hne (k.zoneOfPosition_applyAll hwf hp hnames)
  · intro hne
    by_contra hnames
    exact hne (inImplementationFile_applyAll hwf hp fun q hq hq' => hnames ⟨q, hq, hq'⟩)
  · intro d hd c real hne
    by_contra hnames
    exact hne (c.triage_applyAll real hwf hd fun p hp hp' => hnames ⟨p, hp, hp'⟩)
  · intro hne
    by_contra hnone
    exact hne (hbases d hd fun base hbase => hnone ⟨base, hbase⟩)
  · intro hne
    by_contra hnone
    refine hne (h.hasIgnoredBase_eq hwf (fun e he => ?_) p hd)
    exact hbases e he fun base hbase => hnone ⟨e, base, hbase⟩

/-- The file of a class gets another name, and the class a second base class. -/
theorem applyAll_stable_circle :
    (∃ hs, Grown circle hs) ∧
      circle.SameDecl (circle.applyAll [.lineDirective 0 "b.y", .addRecord 0 "B" 0,
        .addBase 1 (some 2)]) 1 ∧
      (circle.applyAll [.lineDirective 0 "b.y", .addRecord 0 "B" 0,
        .addBase 1 (some 2)]).fileName? 1 = some "b.y" ∧
      circle.RenamedAt [.lineDirective 0 "b.y", .addRecord 0 "B" 0, .addBase 1 (some 2)]
        (circle.spelling 1) ∧
      (circle.applyAll [.lineDirective 0 "b.y", .addRecord 0 "B" 0, .addBase 1 (some 2)]).bases 1 =
        [some 1, some 2] := by
  obtain ⟨hs, hgrown⟩ := reachable_circle
  obtain ⟨hdecl, -, -, -, hposition, -, hbases, -⟩ :=
    applyAll_stable hgrown [.lineDirective 0 "b.y", .addRecord 0 "B" 0, .addBase 1 (some 2)]
  have hname :
      (circle.applyAll [.lineDirective 0 "b.y", .addRecord 0 "B" 0,
        .addBase 1 (some 2)]).fileName? 1 =
      some "b.y" := by
    decide +kernel
  have hrenamed := (hposition 1 (by decide)).2.1 (by decide +kernel)
  exact ⟨reachable_circle, hdecl 1 (by decide), hname, hrenamed, (hbases 1 (by decide)).1⟩

end SourceUnit

end StyleZones

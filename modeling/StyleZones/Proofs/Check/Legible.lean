import StyleZones.Proofs.Check.Triage
import StyleZones.Proofs.Check.ZoneReport
import StyleZones.Proofs.Snapshot.Image
import StyleZones.Proofs.Unit.Legible

/-!
# Checking reads only what is there

The decision about a declaration and the findings of the zone report are read strictly, as the
questions about a unit are in `StyleZones.Proofs.Unit.Strict`. On a well-formed unit the answers are
the plain ones.

`SourceUnit.wellFormed_and_legible_of_reachable` sums up: every unit that is grown by edits or
loaded is well formed, and nothing that is asked about its entries, by checks or otherwise, leads to
an entry that is not there or into a loop that runs too long.
-/

set_option autoImplicit false

namespace StyleZones

namespace Strict

/-! ## Strict readings -/

section Readings

variable (u : SourceUnit)

def zoneOfPosition (k : Classifier) (p : Nat) : Option Zone := do
  if ← inSystemHeader u p then return .thirdParty
  return (← fileName u p).elim .thirdParty k.zoneOfName

def tag (d : Nat) : Option (Option Tag) :=
  (entity u d).map fun
    | .record _ _ => some (.classLike d)
    | .enumeration _ _ => some (.enumeration d)
    | _ => none

/-- What becomes of a class or an enumeration that stands at a position. -/
def triageAt (c : Checker) (real : RealPath) (tag : Tag) (d p : Nat) : Option Disposition := do
  let zone ← zoneOfPosition u (c.classifier real) p
  if !zone.isChecked then return .skipped .thirdParty
  let simple ← simpleName u d
  if c.policy.ignoresType simple then return .skipped .ignoredName
  if tag.isClass && Text.endsWith simple Checker.matcherSuffix then return .skipped .matcherSuffix
  return .forward zone p tag

def triage (c : Checker) (real : RealPath) (d : Nat) : Option Disposition := do
  match ← tag u d with
  | none => return .skipped .notATag
  | some tag =>
      match ← position u d with
      | none => return .skipped .thirdParty
      | some p => triageAt u c real tag d p

end Readings

section Findings

variable (ctx : CheckContext)

/-- What the zone report says about a declaration of the given kind. -/
def describe (kind : String) (s : Subject) : Option String := do
  let simple ← simpleName ctx.unit s.decl
  let around ← namespaceOf ctx.unit ctx.options.namespaceMode s.decl
  let implementation ← inImplementationFile ctx.unit s.position
  return kind ++ " '" ++ simple ++ "' in " ++ s.zone.name ++ " zone, namespace '" ++ around ++
    "', declared in " ++ (if implementation then "implementation file" else "header")

def finding (code check : String) (severity : Severity) (s : Subject) (message : String) :
    Option Finding := do
  let declaration ← qualifiedName ctx.unit s.decl
  let presumed ← presumedLocation ctx.unit s.position
  let location := presumed.elim .unknown fun l => ⟨l.file, l.line, l.column⟩
  return ⟨code, check, severity, s.zone, declaration, location, message⟩

/-- What a zone report says about an item. -/
def zoneFinding (i : ZoneReport.Item) : Option Finding :=
  match i.tag with
  | .classLike _ => do
      let text ← describe ctx "class" i.subject
      let note :=
        if ← hasIgnoredBase ctx.unit ctx.policy i.subject.decl then ZoneReport.ignoredBaseNote
        else ""
      finding ctx ZoneReport.code ZoneReport.name (ZoneReport.severityIn i.pinned ctx) i.subject
        (text ++ note)
  | .enumeration _ => do
      let text ← describe ctx "enum" i.subject
      finding ctx ZoneReport.code ZoneReport.name (ZoneReport.severityIn i.pinned ctx)
        i.subject text

end Findings

/-- The findings of a checker with zone reports about a declaration. -/
def zoneFindings (u : SourceUnit) (p : Policy) (o : Options) (pins : List (Option Severity))
    (real : RealPath) (d : Nat) : Option (List Finding) := do
  let decision ← triage u (ZoneReport.checker p o pins) real d
  (ZoneReport.items pins decision).mapM (zoneFinding ⟨u, p, o⟩)

/-! ## They have the plain answers -/

variable {u : SourceUnit}

/-- The zone of a position rests on its file name and on whether it is in a system header, and both
are legible. -/
theorem zoneOfPosition_eq_some (hu : u.WellFormed) (k : Classifier) {p : Nat}
    (hp : p < u.positions.size) :
    zoneOfPosition u k p = some (k.zoneOfPosition u p) := by
  unfold zoneOfPosition Classifier.zoneOfPosition
  rw [inSystemHeader_eq_some hu hp, fileName_eq_some hu hp]
  cases u.inSystemHeader p with
  | true => rfl
  | false => cases u.fileName? p <;> rfl

theorem tag_eq_some {d : Nat} (hd : d < u.decls.size) : tag u d = some (Tag.ofDecl? u d) := by
  obtain ⟨decl, hdecl⟩ := exists_decl hd
  have hentity : u.entity? d = some decl.entity := by
    rw [SourceUnit.entity?, hdecl, Option.map_some]
  unfold tag Tag.ofDecl?
  rw [hentity, entity, hdecl]
  rw [Option.map_some, Option.map_some]
  cases decl.entity <;> rfl

/-- The decision about a declaration asks for its kind, its position, the zone there and its
name. -/
theorem triage_eq_some (hu : u.WellFormed) (c : Checker) (real : RealPath) {d : Nat}
    (hd : d < u.decls.size) :
    triage u c real d = some (c.triage real u d) := by
  unfold triage Checker.triage
  rw [tag_eq_some hd]
  cases Tag.ofDecl? u d with
  | none => rfl
  | some tag =>
    rw [position_eq_some hd]
    cases hposition : u.position? d with
    | none => rfl
    | some p =>
      have hzone := zoneOfPosition_eq_some hu (c.classifier real) (hu.position_lt hposition)
      simp only [triageAt, hzone, simpleName_eq_some hd, Option.bind_eq_bind, Option.bind_some,
        Option.pure_def, ← apply_ite some]

/-- The text of a finding names the declaration and its namespace, and says where it was
declared. -/
theorem describe_eq_some (hu : u.WellFormed) (p : Policy) (o : Options) (kind : String)
    {s : Subject} (hd : s.decl < u.decls.size) (hp : s.position < u.positions.size) :
    describe ⟨u, p, o⟩ kind s = some (ZoneReport.describe ⟨u, p, o⟩ kind s) := by
  simp only [describe, simpleName_eq_some hd, namespaceOf_eq_some hu _ hd,
    inImplementationFile_eq_some hu hp, Option.bind_eq_bind, Option.bind_some, Option.pure_def]
  rfl

/-- A finding has the qualified name of the declaration and the place where it is reported. -/
theorem finding_eq_some (hu : u.WellFormed) (p : Policy) (o : Options) (code check : String)
    (severity : Severity) {s : Subject} (hd : s.decl < u.decls.size)
    (hp : s.position < u.positions.size) (message : String) :
    finding ⟨u, p, o⟩ code check severity s message =
      some (CheckContext.finding ⟨u, p, o⟩ code check severity s message) := by
  have hlocation :
      ((u.presumedLocation? s.position).elim .unknown fun l => ⟨l.file, l.line, l.column⟩) =
      CheckContext.locationOf ⟨u, p, o⟩ s.position := by
    unfold CheckContext.locationOf
    cases u.presumedLocation? s.position <;> rfl
  simp only [finding, qualifiedName_eq_some hu hd, presumedLocation_eq_some hu hp,
    Option.bind_eq_bind, Option.bind_some, Option.pure_def, hlocation]
  rfl

theorem zoneFinding_eq_some (hu : u.WellFormed) (p : Policy) (o : Options) {i : ZoneReport.Item}
    (hd : i.subject.decl < u.decls.size) (hp : i.subject.position < u.positions.size) :
    zoneFinding ⟨u, p, o⟩ i = some (i.finding ⟨u, p, o⟩) := by
  unfold zoneFinding ZoneReport.Item.finding
  cases i.tag with
  | classLike d =>
    simp only [describe_eq_some hu p o _ hd hp, hasIgnoredBase_eq_some hu p hd,
      finding_eq_some hu p o _ _ _ hd hp, Option.bind_eq_bind, Option.bind_some]
    rfl
  | enumeration d =>
    simp only [describe_eq_some hu p o _ hd hp, finding_eq_some hu p o _ _ _ hd hp,
      Option.bind_eq_bind, Option.bind_some]
    rfl

/-- What is forwarded is a declaration at a position of the unit, so that there is nothing in its
findings that cannot be read. -/
theorem zoneFindings_eq_some (hu : u.WellFormed) (p : Policy) (o : Options)
    (pins : List (Option Severity)) (real : RealPath) {d : Nat} (hd : d < u.decls.size) :
    zoneFindings u p o pins real d = some ((ZoneReport.checker p o pins).checkTag real u d) := by
  rw [zoneFindings, triage_eq_some hu _ real hd, ZoneReport.checkTag_eq_map]
  refine mapM_eq_some fun i hi => ?_
  -- What is handed to the checks is the declaration itself, at a position of the unit.
  cases htriage : (ZoneReport.checker p o pins).triage real u d with
  | skipped reason =>
    rw [htriage] at hi
    cases hi
  | forward zone position tag =>
    obtain ⟨hdecl, hposition⟩ := Tag.placed_spec (Checker.placed_of_triage_forward _ real htriage)
    rw [htriage] at hi
    obtain ⟨pinned, -, rfl⟩ := List.mem_map.1 hi
    have hsubject : tag.decl < u.decls.size := by rwa [hdecl]
    exact zoneFinding_eq_some hu p o hsubject (hu.position_lt hposition)

end Strict

/-! ## Legible units -/

/-- Whatever is asked about a position, a strict reading has the plain answer. The loops are granted
`p + 1` turns. -/
structure LegiblePosition (u : SourceUnit) (p : Nat) : Prop where
  spellingLink : Strict.spellingLink u p = some (u.spellingLink? p)
  expansionLink : Strict.expansionLink u p = some (u.expansionLink? p)
  spelling : Strict.spelling u p = some (u.spelling p)
  expansionRoot : Strict.expansionRoot u p = some (u.expansionRoot p)
  expansionChain : Strict.expansionChain u p =
    some ((u.expansionChain p).map fun q => (q, u.isMacro q))
  inSystemHeader : Strict.inSystemHeader u p = some (u.inSystemHeader p)
  presumedLocation : Strict.presumedLocation u p = some (u.presumedLocation? p)
  fileName : Strict.fileName u p = some (u.fileName? p)
  inImplementationFile : Strict.inImplementationFile u p = some (u.inImplementationFile p)
  zone : ∀ k : Classifier, Strict.zoneOfPosition u k p = some (k.zoneOfPosition u p)

/-- Whatever is asked about a declaration, a strict reading has the plain answer. The loops are
granted `d + 1` turns. What any checker hands to its checks, whatever they are, is the declaration
and a position of the unit. -/
structure LegibleDecl (u : SourceUnit) (d : Nat) : Prop where
  tag : Strict.tag u d = some (Tag.ofDecl? u d)
  name : Strict.name u d = some (u.name? d)
  parent : Strict.parent u d = some (u.parent? d)
  position : Strict.position u d = some (u.position? d)
  bases : Strict.bases u d = some (u.bases d)
  qualifiedName : Strict.qualifiedName u d = some (u.qualifiedName d)
  outermostNamespace : Strict.outermostNamespace u d = some (u.outermostNamespace d)
  qualifiedNamespace : Strict.qualifiedNamespace u d = some (u.qualifiedNamespace d)
  namespaceOf : ∀ mode, Strict.namespaceOf u mode d = some (u.namespaceOf mode d)
  hasIgnoredBase : ∀ p, Strict.hasIgnoredBase u p d = some (u.hasIgnoredBase p d)
  triage : ∀ (c : Checker) (real : RealPath), Strict.triage u c real d = some (c.triage real u d)
  handedOver : ∀ (c : Checker) (real : RealPath) (zone : Zone) (p : Nat) (tag : Tag),
    c.triage real u d = .forward zone p tag → tag.decl = d ∧ p < u.positions.size
  findings : ∀ (p : Policy) (o : Options) (pins : List (Option Severity)) (real : RealPath),
    Strict.zoneFindings u p o pins real d = some ((ZoneReport.checker p o pins).checkTag real u d)

namespace SourceUnit

variable {u : SourceUnit}

/-- Whatever is asked about a position of a well-formed unit has an answer, and it is the plain
one. -/
theorem WellFormed.legiblePosition (hu : u.WellFormed) {p : Nat} (hp : p < u.positions.size) :
    LegiblePosition u p where
  spellingLink := Strict.spellingLink_eq_some hp
  expansionLink := Strict.expansionLink_eq_some hp
  spelling := Strict.spelling_eq_some hu hp
  expansionRoot := Strict.expansionRoot_eq_some hu hp
  expansionChain := Strict.expansionChain_eq_some hu hp
  inSystemHeader := Strict.inSystemHeader_eq_some hu hp
  presumedLocation := Strict.presumedLocation_eq_some hu hp
  fileName := Strict.fileName_eq_some hu hp
  inImplementationFile := Strict.inImplementationFile_eq_some hu hp
  zone := fun k => Strict.zoneOfPosition_eq_some hu k hp

/-- Whatever is asked about a declaration of a well-formed unit has an answer, and it is the plain
one. -/
theorem WellFormed.legibleDecl (hu : u.WellFormed) {d : Nat} (hd : d < u.decls.size) :
    LegibleDecl u d where
  tag := Strict.tag_eq_some hd
  name := Strict.name_eq_some hd
  parent := Strict.parent_eq_some hd
  position := Strict.position_eq_some hd
  bases := Strict.bases_eq_some hd
  qualifiedName := Strict.qualifiedName_eq_some hu hd
  outermostNamespace := Strict.outermostNamespace_eq_some hu hd
  qualifiedNamespace := Strict.qualifiedNamespace_eq_some hu hd
  namespaceOf := fun mode => Strict.namespaceOf_eq_some hu mode hd
  hasIgnoredBase := fun p => Strict.hasIgnoredBase_eq_some hu p hd
  triage := fun c real => Strict.triage_eq_some hu c real hd
  handedOver := by
    intro c real zone p tag h
    obtain ⟨hdecl, hposition⟩ := Tag.placed_spec (c.placed_of_triage_forward real h)
    exact ⟨hdecl, hu.position_lt hposition⟩
  findings := fun p o pins real => Strict.zoneFindings_eq_some hu p o pins real hd

/-- Loading grows a unit by edits on handles given out before, and every unit that is grown in this
way is well formed and legible. -/
theorem wellFormed_and_legible_of_reachable :
    (∀ (s : Snapshot) (u : SourceUnit), s.load = .ok u → u.Reachable) ∧
      ∀ u : SourceUnit, u.Reachable →
        u.WellFormed ∧ (∀ p, p < u.positions.size → LegiblePosition u p) ∧
          (∀ d, d < u.decls.size → LegibleDecl u d) ∧
          ∀ name, Strict.find u name = some (u.find? name) := by
  refine ⟨fun s u => Snapshot.reachable_of_load, ?_⟩
  intro u hu
  have hwf := hu.wellFormed
  refine ⟨hwf, ?_, ?_, ?_⟩
  · intro p hp
    exact hwf.legiblePosition hp
  · intro d hd
    exact hwf.legibleDecl hd
  · intro name
    exact Strict.find_eq_some hwf name

/-- One of the two units is grown by edits, and the other is loaded. -/
theorem wellFormed_and_legible_circle_and_mixed :
    (∃ hs, Grown circle hs) ∧ LegiblePosition circle 1 ∧ LegibleDecl circle 1 ∧
      Snapshot.mixed.load = .ok Snapshot.mixed.image ∧ LegiblePosition Snapshot.mixed.image 2 ∧
      LegibleDecl Snapshot.mixed.image 6 := by
  obtain ⟨hloaded, hlegible⟩ := wellFormed_and_legible_of_reachable
  obtain ⟨-, hpositions, hdecls, -⟩ := hlegible _ (hloaded Snapshot.mixed _ rfl)
  obtain ⟨-, hcircle, hclass, -⟩ := hlegible _ reachable_circle
  exact ⟨reachable_circle, hcircle 1 (by decide), hclass 1 (by decide), rfl,
    hpositions 2 (by decide), hdecls 6 (by decide)⟩

end SourceUnit

end StyleZones

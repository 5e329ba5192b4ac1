import StyleZones.Proofs.Json.Presentation
import StyleZones.Proofs.Snapshot.Json

/-!
# Presentations of a snapshot

A snapshot and each of its entries may be presented by an object or by a list, each in its own way.
Whatever the choices are, the snapshot is read from the document, and it is the only one that is
read from it.

Files are read as they come, so that anything may stand under an unknown key. Positions and
declarations are held until their kind is known, and there an unknown key can spoil the whole text.

* `SourceFile.ofJson?_eq_some_iff`, `PositionEntry.ofJson?_eq_some_iff` and
  `DeclEntry.ofJson?_eq_some_iff`: each kind of entry is read from its presentations and from
  nothing else.
* `Snapshot.ofJson?_eq_some_iff` and `Snapshot.ofDocument?_eq_some_iff`: so is the snapshot, without
  and with the limits of a text.
* `Snapshot.every_presentation_is_read` puts this together with the flaws that a document can have.
-/

set_option autoImplicit false

namespace StyleZones

open Json (FieldFormat IsText IsNumber OrNull IsListOf Presents Flaw Slot kindSlot free)
open Json (reads_text reads_bool reads_uint32)
open Json.FieldFormat (required_allows_iff optional_allows_iff any_allows_iff)

/-- The document shows the number of an index. -/
def IsIndex (i : UInt64) (v : Json) : Prop :=
  IsNumber i.toNat v

theorem reads_index : Json.Reads Json.uint64? IsIndex :=
  Json.reads_uint64

/-- An index is never shown by `null`, so that `null` is free to stand for a missing one. -/
theorem reads_optionalIndex : Json.Reads (Json.nullable? Json.uint64?) (OrNull IsIndex) := by
  apply reads_index.orNull
  rintro _ ⟨_, h, -⟩
  cases h

theorem reads_optionalText : Json.Reads (Json.nullable? Json.text?) (OrNull IsText) := by
  apply reads_text.orNull
  rintro _ ⟨_, h, -⟩
  cases h

/-- What shows an index can be held at any level. -/
theorem isHoldable_of_isIndex {n : Nat} {i : UInt64} {v : Json} (h : IsIndex i v) :
    v.isHoldable n = true :=
  Json.isHoldable_of_isNumber i.toNat_lt_size h

/-! ## Files -/

namespace SourceFile

def nameField : FieldFormat String := .required "name" IsText

def systemField : FieldFormat Bool := .optional "system" (fun b v => v = .bool b) false

def presumedNameField : FieldFormat (Option String) :=
  .optional "presumed_name" (OrNull IsText) none

/-- The fields of a file with their values. -/
def slots (f : SourceFile) : List Slot :=
  [nameField.slot f.name, systemField.slot f.system, presumedNameField.slot f.presumedName]

/-- The fields of a file, whatever their values are. -/
def shape : List Slot :=
  [nameField.any, systemField.any, presumedNameField.any]

/-- The document presents the file. -/
def PresentedBy (f : SourceFile) (v : Json) : Prop :=
  Presents free f.slots v

/-- The document presents no file, for one of the reasons there are. -/
def Flawed (v : Json) : Prop :=
  Flaw free shape v

variable {v : Json} {f : SourceFile}

/-- A file is read from exactly the documents that present it. -/
theorem ofJson?_eq_some_iff : ofJson? v = some f ↔ f.PresentedBy v := by
  rw [PresentedBy, ← true_and (Presents free f.slots v)]
  apply Json.bind_fields?_eq_some_iff
  · exact fun _ => rfl
  intro fs hlength
  obtain ⟨a, b, c, rfl⟩ := List.length_eq_three.1 hlength
  cases f
  simp [slots, nameField, systemField, presumedNameField, required_allows_iff reads_text,
    optional_allows_iff reads_bool, optional_allows_iff reads_optionalText, Option.bind_eq_some_iff,
    -Bool.exists_bool]

/-- A document has a flaw exactly if it presents no file. -/
theorem flawed_iff : Flawed v ↔ ¬ ∃ f : SourceFile, f.PresentedBy v := by
  have hopens := (Json.Opens.single presumedNameField).cons systemField |>.cons nameField
  rw [Flawed, Json.flaw_iff, shape, hopens.presents_iff]
  apply not_congr
  constructor
  · rintro ⟨⟨name, system, presumedName⟩, h⟩
    exact ⟨⟨name, system, presumedName⟩, h⟩
  · rintro ⟨f, h⟩
    exact ⟨(f.name, f.system, f.presumedName), h⟩

end SourceFile

/-! ## Positions -/

namespace PositionEntry

def fileField : FieldFormat UInt64 := .required "file" IsIndex

def lineField : FieldFormat UInt32 := .required "line" fun n => IsNumber n.toNat

def columnField : FieldFormat UInt32 := .optional "column" (fun n => IsNumber n.toNat) 1

def spellingField : FieldFormat UInt64 := .required "spelling" IsIndex

def expansionField : FieldFormat UInt64 := .required "expansion" IsIndex

/-- The name of the kind of a position. -/
def kind : PositionEntry → String
  | .inFile .. => "file"
  | .inMacro .. => "macro"
  | .invalid => "invalid"

/-- The fields of a position beside its kind. -/
def fields : PositionEntry → List Slot
  | .inFile file line column => [fileField.slot file, lineField.slot line, columnField.slot column]
  | .inMacro spelling expansion => [spellingField.slot spelling, expansionField.slot expansion]
  | .invalid => []

/-- The fields of a position with their values. -/
def slots (e : PositionEntry) : List Slot :=
  kindSlot e.kind :: e.fields

/-- The fields of each kind of position, whatever their values are. -/
def shapes : List (List Slot) := [
  [kindSlot "file", fileField.any, lineField.any, columnField.any],
  [kindSlot "macro", spellingField.any, expansionField.any],
  [kindSlot "invalid"]]

/-- The document presents the position, and what it adds under unknown keys satisfies `other`. -/
def PresentedBy (other : Json → Prop) (e : PositionEntry) (v : Json) : Prop :=
  Presents other e.slots v

/-- The document presents no position: it has a flaw whatever kind it is taken for. -/
def Flawed (other : Json → Prop) (v : Json) : Prop :=
  ∀ shape ∈ shapes, Flaw other shape v

variable {v : Json} {e : PositionEntry}

/-- The reader for positions in files makes these and no others, of the documents that present their
fields. The readers for the other kinds are described in the same way. -/
theorem inFileOfJson?_eq_some_iff :
    inFileOfJson? v = some e ↔ "file" = e.kind ∧ Presents free e.fields v := by
  apply Json.bind_fields?_eq_some_iff
  · intro h
    cases e <;> simp [kind] at h
    rfl
  intro fs hlength
  obtain ⟨a, b, c, rfl⟩ := List.length_eq_three.1 hlength
  cases e <;> simp [kind, fields, fileField, lineField, columnField,
    required_allows_iff reads_index, required_allows_iff reads_uint32,
    optional_allows_iff reads_uint32, Option.bind_eq_some_iff]

theorem inMacroOfJson?_eq_some_iff :
    inMacroOfJson? v = some e ↔ "macro" = e.kind ∧ Presents free e.fields v := by
  apply Json.bind_fields?_eq_some_iff
  · intro h
    cases e <;> simp [kind] at h
    rfl
  intro fs hlength
  obtain ⟨a, b, rfl⟩ := List.length_eq_two.1 hlength
  cases e <;> simp [kind, fields, spellingField, expansionField, required_allows_iff reads_index,
    Option.bind_eq_some_iff]

theorem map_invalid_eq_some_iff :
    ((v.fields? []).map fun _ => invalid) = some e ↔
      "invalid" = e.kind ∧ Presents free e.fields v := by
  rw [Option.map_eq_bind]
  apply Json.bind_fields?_eq_some_iff
  · intro h
    cases e <;> simp [kind] at h
    rfl
  intro fs hlength
  obtain rfl := List.length_eq_zero_iff.1 hlength
  cases e <;> simp [kind, fields]

/-- No field of a position is called like its kind. -/
theorem kind_not_mem_fields (e : PositionEntry) : "kind" ∉ e.fields.map Slot.name := by
  cases e with
  | inFile file line column => exact (by decide : "kind" ∉ ["file", "line", "column"])
  | inMacro spelling expansion => exact (by decide : "kind" ∉ ["spelling", "expansion"])
  | invalid => exact List.not_mem_nil

/-- A position is read from exactly the documents that present it. -/
theorem ofJson?_eq_some_iff : ofJson? v = some e ↔ e.PresentedBy free v := by
  apply Json.bind_tagged?_eq_some_iff e.kind_not_mem_fields
  intro k rest
  constructor
  · intro hread
    -- Each reader makes positions of one kind, and each kind has one reader.
    dsimp only at hread
    split_ifs at hread with hfile hinside hinvalid
    · exact hfile ▸ inFileOfJson?_eq_some_iff.1 hread
    · exact hinside ▸ inMacroOfJson?_eq_some_iff.1 hread
    · exact hinvalid ▸ map_invalid_eq_some_iff.1 hread
  · rintro ⟨rfl, hpresents⟩
    cases e with
    | inFile file line column => exact inFileOfJson?_eq_some_iff.2 ⟨rfl, hpresents⟩
    | inMacro spelling expansion => exact inMacroOfJson?_eq_some_iff.2 ⟨rfl, hpresents⟩
    | invalid => exact map_invalid_eq_some_iff.2 ⟨rfl, hpresents⟩

variable {other : Json → Prop}

/-- What a position adds is all that can keep it from being held. -/
theorem presentedBy_holdable_iff {n : Nat} :
    e.PresentedBy (fun w => w.isHoldable n = true) v ↔
      e.PresentedBy free v ∧ v.isHoldable (n + 1) = true := by
  apply Json.presents_holdable_iff
  intro s hs w hw
  have hline : ∀ k : UInt32, IsNumber k.toNat w → w.isHoldable n = true := fun k =>
    Json.isHoldable_of_isNumber (Nat.lt_trans k.toNat_lt (by decide))
  rcases List.mem_cons.1 hs with rfl | hs
  · exact Json.isHoldable_of_isText hw
  cases e with
  | inFile file line column =>
    simp only [fields, List.mem_cons, List.not_mem_nil, or_false] at hs
    rcases hs with rfl | rfl | rfl
    · exact isHoldable_of_isIndex hw
    · exact hline line hw
    · exact hline column hw
  | inMacro spelling expansion =>
    simp only [fields, List.mem_cons, List.not_mem_nil, or_false] at hs
    rcases hs with rfl | rfl <;> exact isHoldable_of_isIndex hw
  | invalid => cases hs

/-- A document is flawed as each kind of position exactly if it presents none. -/
theorem flawed_iff : Flawed other v ↔ ¬ ∃ e : PositionEntry, e.PresentedBy other v := by
  -- Each shape is that of one kind with its fields left open.
  have hfile :=
    (Json.Opens.single columnField).cons lineField |>.cons fileField |>.fixed (kindSlot "file")
  have hinMacro := (Json.Opens.single expansionField).cons spellingField |>.fixed (kindSlot "macro")
  simp only [Flawed, Json.flaw_iff, shapes, List.forall_mem_cons, List.not_mem_nil, false_imp_iff,
    implies_true, and_true, ← not_or]
  apply not_congr
  constructor
  · rintro (h | h | h)
    · obtain ⟨⟨file, line, column⟩, h⟩ := hfile.presents_iff.1 h
      exact ⟨.inFile file line column, h⟩
    · obtain ⟨⟨spelling, expansion⟩, h⟩ := hinMacro.presents_iff.1 h
      exact ⟨.inMacro spelling expansion, h⟩
    · exact ⟨.invalid, h⟩
  · rintro ⟨e, h⟩
    cases e with
    | inFile file line column => exact .inl (hfile.presents_iff.2 ⟨(file, line, column), h⟩)
    | inMacro spelling expansion =>
      exact .inr (.inl (hinMacro.presents_iff.2 ⟨(spelling, expansion), h⟩))
    | invalid => exact .inr (.inr h)

end PositionEntry

/-! ## Declarations -/

namespace DeclEntry

/-- The name of a namespace, which may be missing or `null`. -/
def nameSpaceField : FieldFormat (Option String) := .optional "name" (OrNull IsText) none

/-- The name of a record or an enumeration, which may be missing. -/
def tagField : FieldFormat String := .optional "name" IsText ""

/-- The name of a function, which must be there. -/
def functionField : FieldFormat String := .required "name" IsText

def parentField : FieldFormat (Option UInt64) := .optional "parent" (OrNull IsIndex) none

def positionField : FieldFormat UInt64 := .required "position" IsIndex

def basesField : FieldFormat (List (Option UInt64)) :=
  .optional "bases" (IsListOf (OrNull IsIndex)) []

/-- The name of the kind of a declaration. -/
def kind : DeclEntry → String
  | .nameSpace .. => "namespace"
  | .record .. => "record"
  | .enumeration .. => "enum"
  | .function .. => "function"
  | .block .. => "block"

/-- The fields of a declaration beside its kind. -/
def fields : DeclEntry → List Slot
  | .nameSpace name parent => [nameSpaceField.slot name, parentField.slot parent]
  | .record name parent position bases =>
      [tagField.slot name, parentField.slot parent, positionField.slot position,
        basesField.slot bases]
  | .enumeration name parent position =>
      [tagField.slot name, parentField.slot parent, positionField.slot position]
  | .function name parent => [functionField.slot name, parentField.slot parent]
  | .block parent => [parentField.slot parent]

/-- The fields of a declaration with their values. -/
def slots (e : DeclEntry) : List Slot :=
  kindSlot e.kind :: e.fields

/-- The fields of each kind of declaration, whatever their values are. -/
def shapes : List (List Slot) := [
  [kindSlot "namespace", nameSpaceField.any, parentField.any],
  [kindSlot "record", tagField.any, parentField.any, positionField.any, basesField.any],
  [kindSlot "enum", tagField.any, parentField.any, positionField.any],
  [kindSlot "function", functionField.any, parentField.any],
  [kindSlot "block", parentField.any]]

/-- The document presents the declaration, and what it adds under unknown keys satisfies `other`. -/
def PresentedBy (other : Json → Prop) (e : DeclEntry) (v : Json) : Prop :=
  Presents other e.slots v

/-- The document presents no declaration: it has a flaw whatever kind it is taken for. -/
def Flawed (other : Json → Prop) (v : Json) : Prop :=
  ∀ shape ∈ shapes, Flaw other shape v

variable {v : Json} {e : DeclEntry}

/-- A parent is read from its field as from one that may be missing or `null`. -/
theorem parentField_allows_iff {parent : Option UInt64} {f : Json.Field} :
    (parentField.slot parent).Allows f ↔ parentOfField? f = some parent :=
  optional_allows_iff reads_optionalIndex

/-- The reader for namespaces makes namespaces only, of the documents that present their fields, and
likewise the readers for the other kinds of declarations. -/
theorem nameSpaceOfJson?_eq_some_iff :
    nameSpaceOfJson? v = some e ↔ "namespace" = e.kind ∧ Presents free e.fields v := by
  apply Json.bind_fields?_eq_some_iff
  · intro h
    cases e <;> simp [kind] at h
    rfl
  intro fs hlength
  obtain ⟨a, b, rfl⟩ := List.length_eq_two.1 hlength
  cases e <;> simp [kind, fields, nameSpaceField, optional_allows_iff reads_optionalText,
    parentField_allows_iff, Option.bind_eq_some_iff]

theorem recordOfJson?_eq_some_iff :
    recordOfJson? v = some e ↔ "record" = e.kind ∧ Presents free e.fields v := by
  apply Json.bind_fields?_eq_some_iff
  · intro h
    cases e <;> simp [kind] at h
    rfl
  intro fs hlength
  obtain ⟨a, b, c, d, rfl⟩ := List.length_eq_four.1 hlength
  cases e <;> simp [kind, fields, tagField, positionField, basesField,
    optional_allows_iff reads_text, parentField_allows_iff, required_allows_iff reads_index,
    optional_allows_iff reads_optionalIndex.list, Option.bind_eq_some_iff]

theorem enumerationOfJson?_eq_some_iff :
    enumerationOfJson? v = some e ↔ "enum" = e.kind ∧ Presents free e.fields v := by
  apply Json.bind_fields?_eq_some_iff
  · intro h
    cases e <;> simp [kind] at h
    rfl
  intro fs hlength
  obtain ⟨a, b, c, rfl⟩ := List.length_eq_three.1 hlength
  cases e <;> simp [kind, fields, tagField, positionField, optional_allows_iff reads_text,
    parentField_allows_iff, required_allows_iff reads_index, Option.bind_eq_some_iff]

theorem functionOfJson?_eq_some_iff :
    functionOfJson? v = some e ↔ "function" = e.kind ∧ Presents free e.fields v := by
  apply Json.bind_fields?_eq_some_iff
  · intro h
    cases e <;> simp [kind] at h
    rfl
  intro fs hlength
  obtain ⟨a, b, rfl⟩ := List.length_eq_two.1 hlength
  cases e <;> simp [kind, fields, functionField, required_allows_iff reads_text,
    parentField_allows_iff, Option.bind_eq_some_iff]

theorem blockOfJson?_eq_some_iff :
    blockOfJson? v = some e ↔ "block" = e.kind ∧ Presents free e.fields v := by
  apply Json.bind_fields?_eq_some_iff
  · intro h
    cases e <;> simp [kind] at h
    rfl
  intro fs hlength
  obtain ⟨a, rfl⟩ := List.length_eq_one_iff.1 hlength
  cases e <;> simp [kind, fields, parentField_allows_iff, Option.bind_eq_some_iff]

/-- No field of a declaration is called like its kind. -/
theorem kind_not_mem_fields (e : DeclEntry) : "kind" ∉ e.fields.map Slot.name := by
  have hall : "kind" ∉ ["name", "parent", "position", "bases"] := by decide
  have hsub : (e.fields.map Slot.name).Subset ["name", "parent", "position", "bases"] := by
    cases e <;> simp [fields, FieldFormat.slot, List.Subset] <;> decide
  exact fun h => hall (hsub h)

/-- A declaration is read from exactly the documents that present it. -/
theorem ofJson?_eq_some_iff : ofJson? v = some e ↔ e.PresentedBy free v := by
  apply Json.bind_tagged?_eq_some_iff e.kind_not_mem_fields
  intro k rest
  constructor
  · intro hread
    dsimp only at hread
    split_ifs at hread with hnameSpace hrecord henum hfunction hblock
    · exact hnameSpace ▸ nameSpaceOfJson?_eq_some_iff.1 hread
    · exact hrecord ▸ recordOfJson?_eq_some_iff.1 hread
    · exact henum ▸ enumerationOfJson?_eq_some_iff.1 hread
    · exact hfunction ▸ functionOfJson?_eq_some_iff.1 hread
    · exact hblock ▸ blockOfJson?_eq_some_iff.1 hread
  · rintro ⟨rfl, hpresents⟩
    cases e with
    | nameSpace name parent => exact nameSpaceOfJson?_eq_some_iff.2 ⟨rfl, hpresents⟩
    | record name parent position bases => exact recordOfJson?_eq_some_iff.2 ⟨rfl, hpresents⟩
    | enumeration name parent position => exact enumerationOfJson?_eq_some_iff.2 ⟨rfl, hpresents⟩
    | function name parent => exact functionOfJson?_eq_some_iff.2 ⟨rfl, hpresents⟩
    | block parent => exact blockOfJson?_eq_some_iff.2 ⟨rfl, hpresents⟩

variable {other : Json → Prop}

/-- What a declaration adds is all that can keep it from being held, if the list of its bases can be
held. -/
theorem presentedBy_holdable_iff {n : Nat} :
    e.PresentedBy (fun w => w.isHoldable (n + 1) = true) v ↔
      e.PresentedBy free v ∧ v.isHoldable (n + 2) = true := by
  apply Json.presents_holdable_iff
  intro s hs w hw
  have hparent :
      ∀ {m : Nat} {i : Option UInt64} {w : Json}, OrNull IsIndex i w → w.isHoldable m = true :=
    Json.isHoldable_of_orNull fun _ _ => isHoldable_of_isIndex
  rcases List.mem_cons.1 hs with rfl | hs
  · exact Json.isHoldable_of_isText hw
  -- Of all fields, only the list of base classes takes a level of its own.
  cases e <;> simp only [fields, List.mem_cons, List.not_mem_nil, or_false] at hs
  case nameSpace =>
    rcases hs with rfl | rfl
    · exact Json.isHoldable_of_orNull (fun _ _ => Json.isHoldable_of_isText) hw
    · exact hparent hw
  case record =>
    rcases hs with rfl | rfl | rfl | rfl
    · exact Json.isHoldable_of_isText hw
    · exact hparent hw
    · exact isHoldable_of_isIndex hw
    · exact Json.isHoldable_of_isListOf (fun _ _ => hparent) hw
  case enumeration =>
    rcases hs with rfl | rfl | rfl
    · exact Json.isHoldable_of_isText hw
    · exact hparent hw
    · exact isHoldable_of_isIndex hw
  case function =>
    rcases hs with rfl | rfl
    · exact Json.isHoldable_of_isText hw
    · exact hparent hw
  case block =>
    subst hs
    exact hparent hw

/-- A document is flawed as each kind of declaration exactly if it presents none. -/
theorem flawed_iff : Flawed other v ↔ ¬ ∃ e : DeclEntry, e.PresentedBy other v := by
  -- As with positions, each shape is that of one kind with its fields left open.
  have hparent := Json.Opens.single parentField
  have hplaced := (Json.Opens.single positionField).cons parentField |>.cons tagField
  have hnameSpace := hparent.cons nameSpaceField |>.fixed (kindSlot "namespace")
  have hrecord :=
    (Json.Opens.single basesField).cons positionField |>.cons parentField |>.cons tagField
    |>.fixed (kindSlot "record")
  have henum := hplaced.fixed (kindSlot "enum")
  have hfunction := hparent.cons functionField |>.fixed (kindSlot "function")
  have hblock := hparent.fixed (kindSlot "block")
  simp only [Flawed, Json.flaw_iff, shapes, List.forall_mem_cons, List.not_mem_nil, false_imp_iff,
    implies_true, and_true, ← not_or]
  apply not_congr
  constructor
  · rintro (h | h | h | h | h)
    · obtain ⟨⟨name, parent⟩, h⟩ := hnameSpace.presents_iff.1 h
      exact ⟨.nameSpace name parent, h⟩
    · obtain ⟨⟨name, parent, position, bases⟩, h⟩ := hrecord.presents_iff.1 h
      exact ⟨.record name parent position bases, h⟩
    · obtain ⟨⟨name, parent, position⟩, h⟩ := henum.presents_iff.1 h
      exact ⟨.enumeration name parent position, h⟩
    · obtain ⟨⟨name, parent⟩, h⟩ := hfunction.presents_iff.1 h
      exact ⟨.function name parent, h⟩
    · obtain ⟨parent, h⟩ := hblock.presents_iff.1 h
      exact ⟨.block parent, h⟩
  · rintro ⟨e, h⟩
    cases e with
    | nameSpace name parent => exact .inl (hnameSpace.presents_iff.2 ⟨(name, parent), h⟩)
    | record name parent position bases =>
      exact .inr (.inl (hrecord.presents_iff.2 ⟨(name, parent, position, bases), h⟩))
    | enumeration name parent position =>
      exact .inr (.inr (.inl (henum.presents_iff.2 ⟨(name, parent, position), h⟩)))
    | function name parent =>
      exact .inr (.inr (.inr (.inl (hfunction.presents_iff.2 ⟨(name, parent), h⟩))))
    | block parent => exact .inr (.inr (.inr (.inr (hblock.presents_iff.2 ⟨parent, h⟩))))

end DeclEntry

/-! ## Snapshots -/

namespace Snapshot

def filesField : FieldFormat (List SourceFile) :=
  .optional "files" (IsListOf SourceFile.PresentedBy) []

def positionsField (other : Json → Prop) : FieldFormat (List PositionEntry) :=
  .optional "positions" (IsListOf (PositionEntry.PresentedBy other)) []

def declsField (other : Json → Prop) : FieldFormat (List DeclEntry) :=
  .optional "decls" (IsListOf (DeclEntry.PresentedBy other)) []

/-- The fields of a snapshot with their values. -/
def slots (other : Json → Prop) (s : Snapshot) : List Slot :=
  [filesField.slot s.files, (positionsField other).slot s.positions,
    (declsField other).slot s.decls]

/-- A field with a list of entries, none of which has a flaw. -/
def listSlot (name : String) (Flawed : Json → Prop) : Slot where
  name := name
  Shows v := ∃ items, v = .arr items ∧ ∀ w ∈ items, ¬ Flawed w
  Omissible := True

/-- The fields of a snapshot, whatever their values are. -/
def shape (other : Json → Prop) : List Slot :=
  [listSlot "files" SourceFile.Flawed, listSlot "positions" (PositionEntry.Flawed other),
    listSlot "decls" (DeclEntry.Flawed other)]

/-- The document presents the snapshot, and what its positions and declarations add under unknown
keys satisfies `other`. -/
def PresentedBy (other : Json → Prop) (s : Snapshot) (v : Json) : Prop :=
  Presents free (s.slots other) v

/-- The document presents no snapshot, for one of the reasons there are. -/
def Flawed (other : Json → Prop) (v : Json) : Prop :=
  Flaw free (shape other) v

/-- What a position or declaration may add: it can be held inside the entry. -/
def Addable (v : Json) : Prop :=
  v.isHoldable (entryLevels - 1) = true

variable {v : Json} {s : Snapshot}

/-- Without the limits of a text, a snapshot is read from exactly the documents that present it. -/
theorem ofJson?_eq_some_iff : ofJson? v = some s ↔ s.PresentedBy free v := by
  have hfiles : Json.Reads SourceFile.ofJson? SourceFile.PresentedBy :=
    fun _ _ => SourceFile.ofJson?_eq_some_iff
  have hpositions : Json.Reads PositionEntry.ofJson? (PositionEntry.PresentedBy free) := fun _ _ =>
    PositionEntry.ofJson?_eq_some_iff
  have hdecls : Json.Reads DeclEntry.ofJson? (DeclEntry.PresentedBy free) :=
    fun _ _ => DeclEntry.ofJson?_eq_some_iff
  rw [PresentedBy, ← true_and (Presents free _ v)]
  apply Json.bind_fields?_eq_some_iff
  · exact fun _ => rfl
  intro fs hlength
  obtain ⟨a, b, c, rfl⟩ := List.length_eq_three.1 hlength
  cases s
  simp [slots, filesField, positionsField, declsField, optional_allows_iff hfiles.list,
    optional_allows_iff hpositions.list, optional_allows_iff hdecls.list, Option.bind_eq_some_iff]

/-- A list of entries can be held if each of them can, and nothing is to be held if there is no
list. -/
theorem list_allows_iff {α : Type} {Shows Held : α → Json → Prop}
    (h : ∀ a w, Held a w ↔ Shows a w ∧ w.isHoldable entryLevels = true) {name : String}
    {as : List α} {f : Json.Field} :
    ((FieldFormat.optional name (IsListOf Held) []).slot as).Allows f ↔
      ((FieldFormat.optional name (IsListOf Shows) []).slot as).Allows f ∧
        f.all areHoldable = true := by
  cases f with
  | none => simp [Slot.Allows, FieldFormat.slot, FieldFormat.optional]
  | some w =>
    constructor
    · rintro ⟨items, rfl, hitems⟩
      refine ⟨⟨items, rfl, hitems.imp fun a w hw => ((h a w).1 hw).1⟩, ?_⟩
      rw [Option.all_some, areHoldable, List.all_eq_true]
      intro w hw
      obtain ⟨a, -, ha⟩ := exists_related_of_forall₂ hitems.flip hw
      exact ((h a w).1 ha).2
    · rintro ⟨⟨items, rfl, hitems⟩, hhold⟩
      rw [Option.all_some, areHoldable, List.all_eq_true] at hhold
      refine ⟨items, rfl, List.forall₂_iff_zip.2 ⟨hitems.length_eq, ?_⟩⟩
      intro a w hmem
      exact (h a w).2 ⟨List.forall₂_zip hitems hmem, hhold w (List.of_mem_zip hmem).2⟩

/-- From a text that has been read, a snapshot is taken if what its entries add can be held. -/
theorem ofDocument?_eq_some_iff : ofDocument? v = some s ↔ s.PresentedBy Addable v := by
  have hpositions : ∀ f, ((positionsField Addable).slot s.positions).Allows f ↔
      ((positionsField free).slot s.positions).Allows f ∧ f.all areHoldable = true := fun f =>
    list_allows_iff fun _ _ => PositionEntry.presentedBy_holdable_iff
  have hdecls : ∀ f, ((declsField Addable).slot s.decls).Allows f ↔
      ((declsField free).slot s.decls).Allows f ∧ f.all areHoldable = true := fun f =>
    list_allows_iff fun _ _ => DeclEntry.presentedBy_holdable_iff
  have hread : ofDocument? v = some s ↔ isHoldable v = true ∧ ofJson? v = some s := by
    rw [ofDocument?]
    split_ifs with h <;> simp [h]
  rw [hread, ofJson?_eq_some_iff, PresentedBy, PresentedBy, Json.presents_free_iff,
    Json.presents_free_iff]
  -- Both sides look at the same fields, and only the positions and declarations among them are
  -- asked more of.
  change isHoldable v = true ∧ (∃ fs, v.fields? fieldNames = some fs ∧ _) ↔
    ∃ fs, v.fields? fieldNames = some fs ∧ _
  rw [isHoldable]
  cases hfields : v.fields? fieldNames with
  | none => simp
  | some fs =>
    obtain ⟨a, b, c, rfl⟩ := List.length_eq_three.1 (Json.length_of_fields? hfields)
    simp only [slots, hpositions, hdecls, Option.some.injEq, exists_eq_left', List.forall₂_cons,
      Bool.and_eq_true, List.Forall₂.nil, and_true]
    tauto

/-- Lists of entries are shown by the lists in which no entry has a flaw. -/
theorem any_list_eq {α : Type} {Shows : α → Json → Prop} {Flawed : Json → Prop}
    (h : ∀ w, Flawed w ↔ ¬ ∃ a, Shows a w) (name : String) :
    (FieldFormat.optional name (IsListOf Shows) []).any = listSlot name Flawed := by
  have hshows :
      ∀ v, (∃ as, IsListOf Shows as v) ↔ ∃ items, v = .arr items ∧ ∀ w ∈ items, ¬ Flawed w := by
    intro v
    simp only [h, not_not, ← exists_forall₂_iff]
    constructor
    · rintro ⟨as, items, rfl, hitems⟩
      exact ⟨items, rfl, as, hitems.flip⟩
    · rintro ⟨items, rfl, as, hitems⟩
      exact ⟨as, items, rfl, hitems.flip⟩
  simp [FieldFormat.any, FieldFormat.optional, listSlot, hshows]

variable {other : Json → Prop}

/-- A document has a flaw exactly if it presents no snapshot. -/
theorem flawed_iff : Flawed other v ↔ ¬ ∃ s : Snapshot, s.PresentedBy other v := by
  have hshape :
      shape other = [filesField.any, (positionsField other).any, (declsField other).any] := by
    rw [filesField, positionsField, declsField, any_list_eq fun _ => SourceFile.flawed_iff,
      any_list_eq fun _ => PositionEntry.flawed_iff, any_list_eq fun _ => DeclEntry.flawed_iff]
    rfl
  have hopens :=
    (Json.Opens.single (declsField other)).cons (positionsField other) |>.cons filesField
  rw [Flawed, Json.flaw_iff, hshape, hopens.presents_iff]
  apply not_congr
  constructor
  · rintro ⟨⟨files, positions, decls⟩, h⟩
    exact ⟨⟨files, positions, decls⟩, h⟩
  · rintro ⟨s, h⟩
    exact ⟨(s.files, s.positions, s.decls), h⟩

/-- A text is called malformed if there is no snapshot in it. Faults of a snapshot are reported as
such. -/
theorem unitOfText_eq_malformed_iff {text : String} :
    unitOfText text = .error .malformed ↔ ofText? text = none := by
  rw [unitOfText]
  cases ofText? text with
  | none => simp
  | some s =>
    show s.toUnit = _ ↔ _
    rw [toUnit]
    cases s.load <;> simp

/-- Objects and lists beside one another, with members out of order, fields left out and left off,
and unknown keys, some of which are known elsewhere. -/
def motley : Json :=
  Json.ofFields [
    ("decls", .arr [
      .arr [Json.ofText "record", Json.ofText "T", .null, Json.ofNat 1],
      Json.ofFields [("position", .bool true), ("parent", Json.ofNat 0),
        ("kind", Json.ofText "namespace"), ("position", .null)]]),
    ("spelling", .null),
    ("positions", .arr [
      Json.ofFields [("line", Json.ofNat 3), ("kind", Json.ofText "file"), ("file", Json.ofNat 0)],
      .arr [Json.ofText "macro", Json.ofNat 0, Json.ofNat 0],
      Json.ofFields [("line", .arr [.null]), ("kind", Json.ofText "invalid")]]),
    ("files", .arr [
      .arr [Json.ofText "a.cc"],
      Json.ofFields [("kind", .arr []), ("system", .bool true), ("name", Json.ofText "b.h")]])]

/-- The snapshot that `motley` presents. -/
def unmixed : Snapshot where
  files := [⟨"a.cc", false, none⟩, ⟨"b.h", true, none⟩]
  positions := [.inFile 0 3 1, .inMacro 0 0, .invalid]
  decls := [.record "T" none 1 [], .nameSpace none (some 0)]

theorem plain_motley : Json.Plain motley := by
  have htext := Json.faithful_text.plain
  have hnumber : ∀ n ≤ 3, Json.Plain (Json.ofNat n) :=
    fun n hn => .num (Nat.lt_of_le_of_lt hn (by decide))
  apply Json.plain_ofFields
  simp only [List.forall_mem_cons, List.not_mem_nil, false_imp_iff, implies_true, and_true]
  refine ⟨.arr ?_, .null, .arr ?_, .arr ?_⟩
  all_goals simp [Json.plain_ofFields, Json.Plain.arr, Json.Plain.null, Json.Plain.bool, htext,
    hnumber]

/-- Arrays inside one another. -/
def tower : Nat → Json
  | 0 => .arr []
  | n + 1 => .arr [tower n]

theorem plain_tower (n : Nat) : Json.Plain (tower n) := by
  induction n with
  | zero => exact .arr (by simp)
  | succ n ih => exact .arr (by simpa using ih)

/-- A position in no source text that has something under an unknown key. -/
def withAddition (v : Json) : Json :=
  Json.ofFields [("positions", .arr [Json.ofFields [("kind", Json.ofText "invalid"), ("x", v)]])]

end Snapshot

end StyleZones

import StyleZones.Proofs.Json.Fields
import StyleZones.Snapshot.Source

/-!
# Snapshots in JSON and back

A snapshot is read back from its text, whatever its names, numbers and references are, and whether
or not it has a fault. A fault is found only where the snapshot is loaded, so that loading from the
text ends as loading the snapshot itself does.

* `SourceFile.faithful_json`, `PositionEntry.faithful_json`, `DeclEntry.faithful_json` and
  `Snapshot.faithful_json`: each kind of entry is read back from its document.
* `Snapshot.isHoldable_toJson`: positions and declarations are held until their kind is known, and
  what is written of them can be held.
* `Snapshot.toText_reads_back` puts this together with the layouts of a document.
-/

set_option autoImplicit false

namespace StyleZones

open Json (fields?_ofFields tagged?_ofFields faithful_text faithful_bool faithful_uint32)

/-! ## References and optional names -/

theorem faithful_index : Json.Faithful indexToJson Json.uint64? :=
  Json.faithful_uint64

theorem faithful_optionalIndex :
    Json.Faithful (Json.ofOption indexToJson) (Json.nullable? Json.uint64?) := by
  apply faithful_index.option
  intro _ h
  cases h

theorem faithful_optionalText :
    Json.Faithful (Json.ofOption Json.ofText) (Json.nullable? Json.text?) := by
  apply faithful_text.option
  intro _ h
  cases h

theorem depth_ofOption {α : Type} {write : α → Json} (h : ∀ a, (write a).depth = 0) (o : Option α) :
    (Json.ofOption write o).depth = 0 := by
  cases o with
  | none => rfl
  | some a => exact h a

/-! ## Entries -/

namespace SourceFile

theorem faithful_json : Json.Faithful toJson ofJson? where
  plain f := by
    apply Json.plain_ofFields
    simp [faithful_text.plain, faithful_bool.plain, faithful_optionalText.plain]
  read_write f := by
    simp [toJson, ofJson?, fieldNames, fields?_ofFields, Json.Field.required, Json.Field.optional,
      faithful_text.read_write, faithful_bool.read_write, faithful_optionalText.read_write]

end SourceFile

namespace PositionEntry

/-- A position is written as an object with its kind, by which it is read. -/
theorem faithful_json : Json.Faithful toJson ofJson? where
  plain e := by
    cases e <;> apply Json.plain_ofFields <;>
      simp [faithful_text.plain, faithful_index.plain, faithful_uint32.plain]
  read_write e := by
    cases e with
    | inFile file line column =>
      simp [toJson, ofJson?, tagged?_ofFields, inFileOfJson?, fields?_ofFields, Json.Field.required,
        Json.Field.optional, faithful_index.read_write, faithful_uint32.read_write]
    | inMacro spelling expansion =>
      simp [toJson, ofJson?, tagged?_ofFields, inMacroOfJson?, fields?_ofFields,
        Json.Field.required, faithful_index.read_write]
    | invalid => simp [toJson, ofJson?, tagged?_ofFields, fields?_ofFields]

/-- A position is one container. -/
theorem depth_toJson_le (e : PositionEntry) : e.toJson.depth ≤ 1 := by
  cases e <;> apply Json.depth_ofFields_le <;> simp [Json.ofText, Json.ofNat, indexToJson,
    Json.depth]

end PositionEntry

namespace DeclEntry

/-- The bases of a class. -/
theorem faithful_bases :
    Json.Faithful (fun bases : List (Option UInt64) => .arr (bases.map (Json.ofOption indexToJson)))
    (Json.list? (Json.nullable? Json.uint64?)) :=
  faithful_optionalIndex.list

theorem parentOfField?_parentToJson (parent : Option UInt64) :
    parentOfField? (some (parentToJson parent)) = some parent :=
  faithful_optionalIndex.read_write parent

/-- So is a declaration, and its parent is written as `null` if it has none. -/
theorem faithful_json : Json.Faithful toJson ofJson? where
  plain e := by
    cases e <;> apply Json.plain_ofFields <;>
      simp [parentToJson, faithful_text.plain, faithful_optionalText.plain, faithful_index.plain,
        faithful_optionalIndex.plain, faithful_bases.plain]
  read_write e := by
    cases e with
    | nameSpace name parent =>
      simp [toJson, ofJson?, tagged?_ofFields, nameSpaceOfJson?, fields?_ofFields,
        Json.Field.optional, faithful_optionalText.read_write, parentOfField?_parentToJson]
    | record name parent position bases =>
      simp [toJson, ofJson?, tagged?_ofFields, recordOfJson?, fields?_ofFields, Json.Field.required,
        Json.Field.optional, faithful_text.read_write, faithful_index.read_write,
        faithful_bases.read_write, parentOfField?_parentToJson]
    | enumeration name parent position =>
      simp [toJson, ofJson?, tagged?_ofFields, enumerationOfJson?, fields?_ofFields,
        Json.Field.required, Json.Field.optional, faithful_text.read_write,
        faithful_index.read_write, parentOfField?_parentToJson]
    | function name parent =>
      simp [toJson, ofJson?, tagged?_ofFields, functionOfJson?, fields?_ofFields,
        Json.Field.required, faithful_text.read_write, parentOfField?_parentToJson]
    | block parent =>
      simp [toJson, ofJson?, tagged?_ofFields, blockOfJson?, fields?_ofFields,
        parentOfField?_parentToJson]

/-- A declaration is one container, with at most the list of its bases inside. -/
theorem depth_toJson_le (e : DeclEntry) : e.toJson.depth ≤ 2 := by
  have hindex : ∀ i, (Json.ofOption indexToJson i).depth = 0 := depth_ofOption fun _ => rfl
  have htext : ∀ t, (Json.ofOption Json.ofText t).depth = 0 := depth_ofOption fun _ => rfl
  have hbases : ∀ bases : List (Option UInt64),
      (Json.arr (bases.map (Json.ofOption indexToJson))).depth ≤ 1 := by
    intro bases
    apply Nat.succ_le_succ
    apply Json.itemsDepth_le_iff.2
    intro v hv
    obtain ⟨i, -, rfl⟩ := List.mem_map.1 hv
    exact (hindex i).le
  have hscalar : ∀ t, (Json.ofText t).depth = 0 := fun _ => rfl
  have hposition : ∀ i, (indexToJson i).depth = 0 := fun _ => rfl
  cases e <;> apply Json.depth_ofFields_le <;> simp [parentToJson, hindex, htext, hbases, hscalar,
    hposition]

end DeclEntry

/-! ## Snapshots -/

namespace Snapshot

/-- A snapshot is written with its three lists. -/
theorem fields?_toJson (s : Snapshot) : s.toJson.fields? fieldNames = some [
    some (.arr (s.files.map SourceFile.toJson)),
    some (.arr (s.positions.map PositionEntry.toJson)),
    some (.arr (s.decls.map DeclEntry.toJson))] :=
  fields?_ofFields rfl (by decide)

theorem faithful_json : Json.Faithful toJson ofJson? where
  plain s := by
    apply Json.plain_ofFields
    simp [SourceFile.faithful_json.list.plain, PositionEntry.faithful_json.list.plain,
      DeclEntry.faithful_json.list.plain]
  read_write s := by
    simp [ofJson?, fields?_toJson, Json.Field.optional, SourceFile.faithful_json.list.read_write,
      PositionEntry.faithful_json.list.read_write, DeclEntry.faithful_json.list.read_write]

/-- What is written for the entries of a list can be held, if no entry nests deeper than allowed. -/
theorem areHoldable_map {α : Type} {write : α → Json} {read : Json → Option α}
    (h : Json.Faithful write read) (hdepth : ∀ a, (write a).depth ≤ entryLevels) (as : List α) :
    areHoldable (.arr (as.map write)) = true := by
  rw [areHoldable, List.all_eq_true]
  intro v hv
  obtain ⟨a, -, rfl⟩ := List.mem_map.1 hv
  rw [Json.isHoldable, (h.plain a).isReadable, decide_eq_true (hdepth a)]
  rfl

/-- What is written can be held: a declaration takes two levels, and far more are allowed. -/
theorem isHoldable_toJson (s : Snapshot) : isHoldable s.toJson = true := by
  have hpositions := areHoldable_map PositionEntry.faithful_json
    (fun e => e.depth_toJson_le.trans (by decide)) s.positions
  have hdecls :=
    areHoldable_map DeclEntry.faithful_json (fun e => e.depth_toJson_le.trans (by decide)) s.decls
  rw [isHoldable, fields?_toJson]
  simp [hpositions, hdecls]

theorem ofDocument?_toJson (s : Snapshot) : ofDocument? s.toJson = some s := by
  rw [ofDocument?, if_pos s.isHoldable_toJson]
  exact faithful_json.read_write s

/-- A snapshot is read back from any text that is read as its document. -/
theorem ofText?_of_read? {s : Snapshot} {text : String} (h : Json.read? text = some s.toJson) :
    ofText? text = some s := by
  rw [ofText?, h]
  exact s.ofDocument?_toJson

/-- The text of a snapshot is its document in the compact layout, and the snapshot is read back from
it, as it is from the indented layout. So a unit that is loaded from the text is the unit that is
loaded from the snapshot, and a fault that is found is the same. -/
theorem toText_reads_back (s : Snapshot) :
    Json.read? s.toText = some s.toJson ∧ ofText? s.toText = some s ∧
      ofText? s.toJson.pretty = some s ∧
      unitOfText s.toText = s.load.mapError .faulty := by
  have hplain := faithful_json.plain s
  have hread : Json.read? s.toText = some s.toJson := hplain.read?_compact
  have htext : ofText? s.toText = some s := ofText?_of_read? hread
  refine ⟨hread, htext, ofText?_of_read? hplain.read?_pretty, ?_⟩
  rw [unitOfText, htext]
  show s.toUnit = _
  rw [toUnit]
  cases s.load <;> rfl

/-- A quote and a line break in a name, a missing parent and a base that is not known. -/
example : toText ⟨[⟨"a\"\n", false, none⟩], [.invalid], [.record "T" none 0 [none, some 12]]⟩ =
    "\x7b\"files\":[\x7b\"name\":\"a\\\"\\n\",\"system\":false,\"presumed_name\":null\x7d]," ++
      "\"positions\":[\x7b\"kind\":\"invalid\"\x7d]," ++
      "\"decls\":[\x7b\"kind\":\"record\",\"name\":\"T\",\"parent\":null,\"position\":0," ++
      "\"bases\":[null,12]\x7d]\x7d" := by
  decide +kernel

end Snapshot

end StyleZones

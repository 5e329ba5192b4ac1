import StyleZones.Json.Fields
import StyleZones.Json.Printer
import StyleZones.Json.Reader
import StyleZones.Snapshot.Basic

/-!
# Snapshots in JSON

How snapshots are written in JSON, and how they are read.

* `Snapshot.toJson` writes an object for the snapshot and for each entry, with every field in
  declared order and the kind of a position or declaration first;
* `Snapshot.ofJson?` reads every presentation: objects with their members in any order, fields with
  a default left out, unknown keys, and arrays of field values;
* `Snapshot.ofText?` reads a text. Positions and declarations are held before their kind is known,
  which bounds what may stand in them.
-/

set_option autoImplicit false

namespace StyleZones

/-- The number of an index as a document. -/
def indexToJson (i : UInt64) : Json :=
  Json.ofNat i.toNat

/-! ## Files -/

namespace SourceFile

/-- The fields of a file in declared order. -/
def fieldNames : List String :=
  ["name", "system", "presumed_name"]

/-- A file as a document. -/
def toJson (f : SourceFile) : Json :=
  Json.ofFields [
    ("name", Json.ofText f.name),
    ("system", .bool f.system),
    ("presumed_name", Json.ofOption Json.ofText f.presumedName)]

/-- The file that a document presents. -/
def ofJson? (v : Json) : Option SourceFile := do
  match ← v.fields? fieldNames with
  | [name, system, presumedName] =>
      return {
        name := ← Json.Field.required Json.text? name
        system := ← Json.Field.optional Json.bool? false system
        presumedName := ← Json.Field.optional (Json.nullable? Json.text?) none presumedName }
  | _ => none

end SourceFile

/-! ## Positions -/

namespace PositionEntry

/-- A position as a document. -/
def toJson : PositionEntry → Json
  | .inFile file line column =>
      Json.ofFields [
        ("kind", Json.ofText "file"),
        ("file", indexToJson file),
        ("line", Json.ofNat line.toNat),
        ("column", Json.ofNat column.toNat)]
  | .inMacro spelling expansion =>
      Json.ofFields [
        ("kind", Json.ofText "macro"),
        ("spelling", indexToJson spelling),
        ("expansion", indexToJson expansion)]
  | .invalid => Json.ofFields [("kind", Json.ofText "invalid")]

/-- A position in a file, from its fields. -/
def inFileOfJson? (v : Json) : Option PositionEntry := do
  match ← v.fields? ["file", "line", "column"] with
  | [file, line, column] =>
      return .inFile
        (← Json.Field.required Json.uint64? file)
        (← Json.Field.required Json.uint32? line)
        (← Json.Field.optional Json.uint32? 1 column)
  | _ => none

/-- A position in a macro, from its fields. -/
def inMacroOfJson? (v : Json) : Option PositionEntry := do
  match ← v.fields? ["spelling", "expansion"] with
  | [spelling, expansion] =>
      return .inMacro
        (← Json.Field.required Json.uint64? spelling)
        (← Json.Field.required Json.uint64? expansion)
  | _ => none

/-- The position that a document presents. -/
def ofJson? (v : Json) : Option PositionEntry := do
  let (kind, rest) ← v.tagged?
  if kind = "file" then inFileOfJson? rest
  else if kind = "macro" then inMacroOfJson? rest
  else if kind = "invalid" then (rest.fields? []).map fun _ => .invalid
  else none

end PositionEntry

/-! ## Declarations -/

namespace DeclEntry

/-- The document of a parent. -/
def parentToJson (parent : Option UInt64) : Json :=
  Json.ofOption indexToJson parent

/-- A declaration as a document. -/
def toJson : DeclEntry → Json
  | .nameSpace name parent =>
      Json.ofFields [
        ("kind", Json.ofText "namespace"),
        ("name", Json.ofOption Json.ofText name),
        ("parent", parentToJson parent)]
  | .record name parent position bases =>
      Json.ofFields [
        ("kind", Json.ofText "record"),
        ("name", Json.ofText name),
        ("parent", parentToJson parent),
        ("position", indexToJson position),
        ("bases", .arr (bases.map (Json.ofOption indexToJson)))]
  | .enumeration name parent position =>
      Json.ofFields [
        ("kind", Json.ofText "enum"),
        ("name", Json.ofText name),
        ("parent", parentToJson parent),
        ("position", indexToJson position)]
  | .function name parent =>
      Json.ofFields [
        ("kind", Json.ofText "function"),
        ("name", Json.ofText name),
        ("parent", parentToJson parent)]
  | .block parent =>
      Json.ofFields [
        ("kind", Json.ofText "block"),
        ("parent", parentToJson parent)]

/-- The parent that a field gives; none if it is missing or `null`. -/
def parentOfField? (parent : Json.Field) : Option (Option UInt64) :=
  Json.Field.optional (Json.nullable? Json.uint64?) none parent

/-- A namespace, from its fields. -/
def nameSpaceOfJson? (v : Json) : Option DeclEntry := do
  match ← v.fields? ["name", "parent"] with
  | [name, parent] =>
      return .nameSpace
        (← Json.Field.optional (Json.nullable? Json.text?) none name)
        (← parentOfField? parent)
  | _ => none

/-- A record, from its fields. -/
def recordOfJson? (v : Json) : Option DeclEntry := do
  match ← v.fields? ["name", "parent", "position", "bases"] with
  | [name, parent, position, bases] =>
      return .record
        (← Json.Field.optional Json.text? "" name)
        (← parentOfField? parent)
        (← Json.Field.required Json.uint64? position)
        (← Json.Field.optional (Json.list? (Json.nullable? Json.uint64?)) [] bases)
  | _ => none

/-- An enumeration, from its fields. -/
def enumerationOfJson? (v : Json) : Option DeclEntry := do
  match ← v.fields? ["name", "parent", "position"] with
  | [name, parent, position] =>
      return .enumeration
        (← Json.Field.optional Json.text? "" name)
        (← parentOfField? parent)
        (← Json.Field.required Json.uint64? position)
  | _ => none

/-- A function, from its fields. -/
def functionOfJson? (v : Json) : Option DeclEntry := do
  match ← v.fields? ["name", "parent"] with
  | [name, parent] =>
      return .function
        (← Json.Field.required Json.text? name)
        (← parentOfField? parent)
  | _ => none

/-- A block, from its fields. -/
def blockOfJson? (v : Json) : Option DeclEntry := do
  match ← v.fields? ["parent"] with
  | [parent] => return .block (← parentOfField? parent)
  | _ => none

/-- The declaration that a document presents. -/
def ofJson? (v : Json) : Option DeclEntry := do
  let (kind, rest) ← v.tagged?
  if kind = "namespace" then nameSpaceOfJson? rest
  else if kind = "record" then recordOfJson? rest
  else if kind = "enum" then enumerationOfJson? rest
  else if kind = "function" then functionOfJson? rest
  else if kind = "block" then blockOfJson? rest
  else none

end DeclEntry

/-! ## Snapshots -/

namespace Snapshot

/-- The fields of a snapshot in declared order. -/
def fieldNames : List String :=
  ["files", "positions", "decls"]

/-- A snapshot as a document. -/
def toJson (s : Snapshot) : Json :=
  Json.ofFields [
    ("files", .arr (s.files.map SourceFile.toJson)),
    ("positions", .arr (s.positions.map PositionEntry.toJson)),
    ("decls", .arr (s.decls.map DeclEntry.toJson))]

/-- The text of a snapshot. -/
def toText (s : Snapshot) : String :=
  s.toJson.compact

/-- The snapshot that a document presents. -/
def ofJson? (v : Json) : Option Snapshot := do
  match ← v.fields? fieldNames with
  | [files, positions, decls] =>
      return {
        files := ← Json.Field.optional (Json.list? SourceFile.ofJson?) [] files
        positions := ← Json.Field.optional (Json.list? PositionEntry.ofJson?) [] positions
        decls := ← Json.Field.optional (Json.list? DeclEntry.ofJson?) [] decls }
  | _ => none

/-- How deeply a position or declaration may nest. A text may have 127 containers open inside one
another, and two of them are around each entry. -/
def entryLevels : Nat := 125

/-- Every item of a list can be held. -/
def areHoldable : Json → Bool
  | .arr items => items.all (Json.isHoldable entryLevels)
  | _ => true

/-- The positions and declarations of a document can be held. -/
def isHoldable (v : Json) : Bool :=
  match v.fields? fieldNames with
  | some [_, positions, decls] => positions.all areHoldable && decls.all areHoldable
  | _ => true

/-- The snapshot that a document holds as it stands in a text. -/
def ofDocument? (v : Json) : Option Snapshot :=
  if isHoldable v then ofJson? v else none

/-- The snapshot that a text holds. -/
def ofText? (text : String) : Option Snapshot := do
  ofDocument? (← Json.read? text)

end Snapshot

end StyleZones

import StyleZones.Json.Fields
import StyleZones.Json.Printer
import StyleZones.Json.Reader
import StyleZones.Report.Basic

/-!
# Reports in JSON

How reports are written in JSON, with every field in declared order, and how they are read back. No
field may be missing.
-/

set_option autoImplicit false

namespace StyleZones

namespace Location

/-- A location as a document. -/
def toJson (l : Location) : Json :=
  Json.ofFields [
    ("file", Json.ofText l.file),
    ("line", Json.ofNat l.line.toNat),
    ("column", Json.ofNat l.column.toNat)]

/-- The location that a document presents. -/
def ofJson? (v : Json) : Option Location := do
  match ← v.fields? ["file", "line", "column"] with
  | [file, line, column] =>
      return {
        file := ← Json.Field.required Json.text? file
        line := ← Json.Field.required Json.uint32? line
        column := ← Json.Field.required Json.uint32? column }
  | _ => none

/-- The location that a text holds. -/
def ofText? (text : String) : Option Location := do
  ofJson? (← Json.read? text)

end Location

namespace Finding

/-- A finding as a document. -/
def toJson (f : Finding) : Json :=
  Json.ofFields [
    ("code", Json.ofText f.code),
    ("check", Json.ofText f.check),
    ("severity", Json.ofText f.severity.name),
    ("zone", Json.ofText f.zone.name),
    ("declaration", Json.ofText f.declaration),
    ("location", f.location.toJson),
    ("message", Json.ofText f.message)]

/-- The finding that a document presents. -/
def ofJson? (v : Json) : Option Finding := do
  match ← v.fields?
      ["code", "check", "severity", "zone", "declaration", "location", "message"] with
  | [code, check, severity, zone, declaration, location, message] =>
      return {
        code := ← Json.Field.required Json.text? code
        check := ← Json.Field.required Json.text? check
        severity := ← Json.Field.required (Json.choice? Severity.ofName?) severity
        zone := ← Json.Field.required (Json.choice? Zone.ofName?) zone
        declaration := ← Json.Field.required Json.text? declaration
        location := ← Json.Field.required Location.ofJson? location
        message := ← Json.Field.required Json.text? message }
  | _ => none

end Finding

namespace Report

/-- A report as a document. -/
def toJson (r : Report) : Json :=
  Json.ofFields [
    ("findings", .arr (r.findings.map Finding.toJson)),
    ("declarations_seen", Json.ofNat r.seen.toNat),
    ("declarations_checked", Json.ofNat r.checked.toNat)]

/-- The report that a document presents. -/
def ofJson? (v : Json) : Option Report := do
  match ← v.fields? ["findings", "declarations_seen", "declarations_checked"] with
  | [findings, seen, checked] =>
      return {
        findings := ← Json.Field.required (Json.list? Finding.ofJson?) findings
        seen := ← Json.Field.required Json.uint64? seen
        checked := ← Json.Field.required Json.uint64? checked }
  | _ => none

/-- The report that a text holds. -/
def ofText? (text : String) : Option Report := do
  ofJson? (← Json.read? text)

end Report

end StyleZones

import StyleZones.Command.Output
import StyleZones.Proofs.Json.Fields

/-!
# Reports in JSON and back

A report that is printed for programs is one JSON text, whatever file names, names of declarations
and messages are in its findings, and the report is read back from it.

* `Location.faithful_json`, `Finding.faithful_json` and `Report.faithful_json`: each part of a
  report is read back from its document. A severity and a zone are written by their names, which
  tell them apart (`Json.faithful_choice`).
* `Report.printed_report_reads_back` goes from the document to the text, with the line end that
  printing adds.
-/

set_option autoImplicit false

namespace StyleZones

open Json (fields?_ofFields faithful_text faithful_uint32 faithful_uint64)

namespace Json

/-- One of several values is read back from its name, if the names tell the values apart. -/
theorem faithful_choice {α : Type} {name : α → String} {ofName : String → Option α}
    (h : ∀ a, ofName (name a) = some a) : Faithful (fun a => ofText (name a)) (choice? ofName) where
  plain a := faithful_text.plain (name a)
  read_write a := by
    have htext : choice? ofName (ofText (name a)) = (text? (ofText (name a))).bind ofName := rfl
    rw [htext, faithful_text.read_write]
    exact h a

end Json

theorem Severity.faithful_json :
    Json.Faithful (fun s : Severity => Json.ofText s.name) (Json.choice? Severity.ofName?) :=
  Json.faithful_choice Severity.ofName?_name

theorem Zone.faithful_json :
    Json.Faithful (fun z : Zone => Json.ofText z.name) (Json.choice? Zone.ofName?) :=
  Json.faithful_choice Zone.ofName?_name

theorem Location.faithful_json : Json.Faithful Location.toJson Location.ofJson? where
  plain l := by
    apply Json.plain_ofFields
    simp [faithful_text.plain, faithful_uint32.plain]
  read_write l := by
    simp [Location.toJson, Location.ofJson?, fields?_ofFields, Json.Field.required,
      faithful_text.read_write, faithful_uint32.read_write]

/-- A finding is written with all its parts. -/
theorem Finding.faithful_json : Json.Faithful Finding.toJson Finding.ofJson? where
  plain f := by
    apply Json.plain_ofFields
    simp [faithful_text.plain, Location.faithful_json.plain]
  read_write f := by
    simp [Finding.toJson, Finding.ofJson?, fields?_ofFields, Json.Field.required,
      faithful_text.read_write, Severity.faithful_json.read_write, Zone.faithful_json.read_write,
      Location.faithful_json.read_write]

namespace Report

theorem faithful_json : Json.Faithful toJson ofJson? where
  plain r := by
    apply Json.plain_ofFields
    simp [Finding.faithful_json.list.plain, faithful_uint64.plain]
  read_write r := by
    simp [toJson, ofJson?, fields?_ofFields, Json.Field.required,
      Finding.faithful_json.list.read_write, faithful_uint64.read_write]

/-- What is printed for programs is the indented layout of the document, and a line end. -/
theorem toList_report_json (r : Report) :
    (Output.report .json r).toList = Json.prettyChars 0 r.toJson ++ Json.newline 0 := by
  simp [Output.report, Output.lines, Json.pretty, Json.newline]

/-- What is printed for programs spells the document of the report. -/
theorem document_report_json (r : Report) :
    Json.Grammar.Document (Output.report .json r) r.toJson := by
  rw [Json.Grammar.Document, toList_report_json]
  exact (faithful_json.plain r).element_pretty (Json.Grammar.gap_newline 0)

/-- A printed report is read back as the report. -/
theorem ofText?_report_json (r : Report) : ofText? (Output.report .json r) = some r := by
  rw [ofText?, (Json.read?_eq_some_iff _ r.toJson).2 r.document_report_json]
  exact faithful_json.read_write r

/-- For every report, whatever characters are in its texts, what is printed for programs is one JSON
text, and reading it gives back the report: the findings in their order with all their parts, and
both counts. So no other report is printed the same way. -/
theorem printed_report_reads_back (r : Report) :
    Json.Grammar.Document (Output.report .json r) r.toJson ∧
      ofText? (Output.report .json r) = some r ∧
      ∀ s, Output.report .json s = Output.report .json r ↔ s = r := by
  refine ⟨document_report_json r, ofText?_report_json r, fun s => ?_⟩
  constructor
  · intro h
    apply Option.some.inj
    rw [← ofText?_report_json s, h, ofText?_report_json r]
  · rintro rfl
    rfl

end Report

end StyleZones

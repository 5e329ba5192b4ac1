import StyleZones.Check.Basic
import StyleZones.Json.Fields

/-!
# Options in JSON

Options may also be given as a JSON value; every field has a default.
-/

set_option autoImplicit false

namespace StyleZones.Options

/-- Options as a document. -/
def toJson (o : Options) : Json :=
  Json.ofFields [
    ("no_realpath", .bool o.noRealpath),
    ("warnings_as_errors", .bool o.warningsAsErrors),
    ("namespace_mode", Json.ofText o.namespaceMode.name)]

/-- The options that a document presents. -/
def ofJson? (v : Json) : Option Options := do
  match ← v.fields? ["no_realpath", "warnings_as_errors", "namespace_mode"] with
  | [noRealpath, warningsAsErrors, namespaceMode] =>
      return {
        noRealpath := ← Json.Field.optional Json.bool? false noRealpath
        warningsAsErrors := ← Json.Field.optional Json.bool? false warningsAsErrors
        namespaceMode :=
          ← Json.Field.optional (Json.choice? NamespaceMode.ofName?) .outermost namespaceMode }
  | _ => none

end StyleZones.Options

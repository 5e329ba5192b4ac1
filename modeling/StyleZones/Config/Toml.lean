import StyleZones.Config.Basic
import StyleZones.Toml.Reader

/-!
# Configurations in TOML

A configuration has two tables, `options` and `policy`. Either may be missing, and so may every
entry of them; unknown entries are passed over. A table may also be given as an array of its values
in declared order, which may stop early; values beyond the last are passed over. A choice between
names may also be given as a table with the name as its only key and nothing under it.
-/

set_option autoImplicit false

namespace StyleZones

namespace Toml

/-- The entries called `names`, in that order, of a table or of an array of values. -/
def fields? (names : List String) : Toml → Option (List (Option Toml))
  | .table entries => some (names.map fun name => entries.lookup name)
  | .array items => some ((List.range names.length).map fun i => items[i]?)
  | _ => none

/-- The value of an entry that may be missing. -/
def optional {α : Type} (read : Toml → Option α) (default : α) : Option Toml → Option α
  | some v => read v
  | none => some default

/-- A truth value. -/
def boolean? : Toml → Option Bool
  | .boolean b => some b
  | _ => none

/-- A string. -/
def text? : Toml → Option String
  | .text s => some s
  | _ => none

/-- A list of strings. -/
def texts? : Toml → Option (List String)
  | .array items => items.mapM text?
  | _ => none

/-- Nothing: an empty table or array. -/
def isNothing : Toml → Bool
  | .array items => items.isEmpty
  | .table entries => entries.isEmpty
  | _ => false

/-- A choice between names. -/
def choice? {α : Type} (ofName : String → Option α) : Toml → Option α
  | .text s => ofName s
  | .table [(key, v)] => if isNothing v then ofName key else none
  | _ => none

end Toml

namespace Options

/-- The options that a table gives. -/
def ofToml? (v : Toml) : Option Options := do
  match ← v.fields? ["no_realpath", "warnings_as_errors", "namespace_mode"] with
  | [noRealpath, warningsAsErrors, namespaceMode] =>
      return {
        noRealpath := ← Toml.optional Toml.boolean? false noRealpath
        warningsAsErrors := ← Toml.optional Toml.boolean? false warningsAsErrors
        namespaceMode :=
          ← Toml.optional (Toml.choice? NamespaceMode.ofName?) .outermost namespaceMode }
  | _ => none

end Options

namespace PolicyConfig

/-- The part about the policy that a table gives. -/
def ofToml? (v : Toml) : Option PolicyConfig := do
  match ← v.fields?
      ["inherit_defaults", "banned_directories", Entries.typesCategory, Entries.basesCategory] with
  | [inheritDefaults, directories, types, bases] =>
      return {
        inheritDefaults := ← Toml.optional Toml.boolean? true inheritDefaults
        entries := {
          directories := ← Toml.optional Toml.texts? [] directories
          types := ← Toml.optional Toml.texts? [] types
          bases := ← Toml.optional Toml.texts? [] bases } }
  | _ => none

end PolicyConfig

namespace Config

/-- The configuration that a document gives. -/
def ofToml? (v : Toml) : Option Config := do
  match ← v.fields? ["options", "policy"] with
  | [options, policy] =>
      return {
        options := ← Toml.optional Options.ofToml? {} options
        policy := ← Toml.optional PolicyConfig.ofToml? {} policy }
  | _ => none

/-- The configuration that a text holds. -/
def ofText (text : String) : Except ConfigError Config :=
  match (Toml.read? text).bind ofToml? with
  | some c => .ok c
  | none => .error .malformed

/-- The configuration that a file holds. -/
def ofFile (disk : Disk) (path : String) : Except ConfigError Config :=
  match disk.read path with
  | .ok text => ofText text
  | .error e => .error (.unreadable path e)

end Config

end StyleZones

import StyleZones.Text.Search

/-!
# Directory markers

A marker names a directory, or a run of nested directories, by the text that stands in every path
below it: the names with a separator before, between and after them. Because it is bounded by
separators on both sides, `/gen/` occurs in `/out/gen/a.h` and not in `/general/a.h`.

A malformed entry of a policy list is a `PolicyError`; its wording is `PolicyError.message`.
-/

set_option autoImplicit false

namespace StyleZones

/-- Why an entry cannot stand in a policy. -/
inductive PolicyError where
  /-- A directory marker that does not start and end with a separator of its own. -/
  | unboundedDirectory (marker : String)
  /-- An empty name in the list of that name. -/
  | emptyEntry (category : String)
  deriving DecidableEq, Repr

namespace PolicyError

/-- What is said about a malformed entry. -/
def message : PolicyError → String
  | .unboundedDirectory marker => "banned directory `" ++ marker ++ "` must start and end with '/'"
  | .emptyEntry category => "empty entry in `" ++ category ++ "`"

end PolicyError

/-- The text has a separator at either end, and these are two separators. -/
def isBounded (text : String) : Bool :=
  match text.toList with
  | '/' :: rest => rest.getLast? == some '/'
  | _ => false

/-- A directory marker: a text that starts and ends with a separator. -/
structure Marker where
  /-- The text, separators included. -/
  text : String
  /-- The text is bounded by separators. -/
  bounded : isBounded text = true
  deriving DecidableEq

namespace Marker

/-- The marker with the given text, if the text is bounded by separators. -/
def ofText (text : String) : Except PolicyError Marker :=
  if h : isBounded text = true then .ok ⟨text, h⟩ else .error (.unboundedDirectory text)

/-- The marker stands in the path. -/
def occursIn (m : Marker) (path : String) : Bool :=
  Text.contains path m.text

end Marker

end StyleZones

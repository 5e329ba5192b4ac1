import StyleZones.Json.Basic
import StyleZones.Json.Token

/-!
# Reading JSON

The tokens of a text are assembled by a stack machine: the stack holds the containers that are still
open, innermost first, each with what has been read of it. A token either opens a container,
completes a value, or moves on within the innermost container. Nesting is bounded by nothing but the
text.

`Json.read?` accepts exactly one value, surrounded by blanks only.
-/

set_option autoImplicit false

namespace StyleZones.Json

/-- An open container, with what stands before the value that is being read, in reverse. -/
inductive Frame where
  /-- An array. -/
  | items (before : List Json)
  /-- An object, and the key of the value that is being read. -/
  | members (before : List (List Char × Json)) (key : List Char)

/-- Where the assembly stands. -/
inductive Assembly where
  /-- A value must follow. -/
  | value (stack : List Frame)
  /-- An array has just been opened: a value or its end must follow. -/
  | opened (stack : List Frame)
  /-- A key must follow, or the end of the object if it is still empty. -/
  | key (stack : List Frame) (before : List (List Char × Json)) (fresh : Bool)
  /-- A colon must follow. -/
  | colon (stack : List Frame) (before : List (List Char × Json)) (key : List Char)
  /-- A value is complete. -/
  | complete (stack : List Frame) (v : Json)

/-- One token where a value must follow. -/
def Assembly.startValue (stack : List Frame) : Token → Option Assembly
  | .openArray => some (.opened stack)
  | .openObject => some (.key stack [] true)
  | .quoted raw => some (.complete stack (.str raw))
  | .scalar v => some (.complete stack v)
  | _ => none

/-- One token. -/
def Assembly.step : Assembly → Token → Option Assembly
  | .value stack, t => startValue stack t
  | .opened stack, .closeArray => some (.complete stack (.arr []))
  | .opened stack, t => startValue (.items [] :: stack) t
  | .key stack before _, .quoted raw => some (.colon stack before raw)
  | .key stack _ true, .closeObject => some (.complete stack (.obj []))
  | .colon stack before k, .colon => some (.value (.members before k :: stack))
  | .complete (.items before :: stack) v, .comma => some (.value (.items (v :: before) :: stack))
  | .complete (.items before :: stack) v, .closeArray =>
      some (.complete stack (.arr (v :: before).reverse))
  | .complete (.members before k :: stack) v, .comma =>
      some (.key stack ((k, v) :: before) false)
  | .complete (.members before k :: stack) v, .closeObject =>
      some (.complete stack (.obj ((k, v) :: before).reverse))
  | _, _ => none

/-- The value, once every container is closed. -/
def Assembly.finish : Assembly → Option Json
  | .complete [] v => some v
  | _ => none

/-- The value that a run of tokens spells. -/
def ofTokens? (ts : List Token) : Option Json := do
  let a ← ts.foldlM Assembly.step (.value [])
  a.finish

/-- The document that a text holds, if it is one JSON value. -/
def read? (text : String) : Option Json := do
  ofTokens? (← tokens? text.toList)

end StyleZones.Json

import StyleZones.Json.Basic
import StyleZones.Json.Numeral
import StyleZones.Json.Quoted

/-!
# Values in documents

What a document denotes where a value of a known kind is asked for, and the documents of such
values.

A value with named fields may be presented in two ways: as an object, whose members stand in any
order and among which unknown keys are passed over, or as an array of the field values in declared
order, from which fields may be left off at the end. `Json.fields?` finds the fields in either
presentation; which fields may be missing is for the caller to say, by `Field.required` or
`Field.optional`.

A value of one of several kinds carries the name of its kind: under the key `kind`, wherever it
stands among the members, or at the front of the array. `Json.tagged?` splits it off.
-/

set_option autoImplicit false

namespace StyleZones.Json

/-! ## Scalars -/

/-- The text of a string. -/
def text? : Json → Option String
  | .str raw => (Quoted.decode raw).map String.ofList
  | _ => none

/-- The document of a text. -/
def ofText (s : String) : Json :=
  .str (Quoted.encode s.toList)

/-- The natural number that a document denotes. -/
def natural? : Json → Option Nat
  | .num numeral => Numeral.natural? numeral
  | _ => none

/-- The document of a natural number. -/
def ofNat (n : Nat) : Json :=
  .num (Decimal.digits n)

/-- A 32-bit number; larger ones are refused. -/
def uint32? (v : Json) : Option UInt32 := do
  let n ← v.natural?
  if n < UInt32.size then some (UInt32.ofNat n) else none

/-- A 64-bit number; larger ones are refused. -/
def uint64? (v : Json) : Option UInt64 := do
  let n ← v.natural?
  if n < UInt64.size then some (UInt64.ofNat n) else none

/-- The truth value of a literal. -/
def bool? : Json → Option Bool
  | .bool b => some b
  | _ => none

/-- `null` for no value, anything else for a value. -/
def nullable? {α : Type} (read : Json → Option α) : Json → Option (Option α)
  | .null => some none
  | v => (read v).map some

/-- The document of a value that may be missing. -/
def ofOption {α : Type} (write : α → Json) : Option α → Json
  | none => .null
  | some a => write a

/-- A list of values. -/
def list? {α : Type} (read : Json → Option α) : Json → Option (List α)
  | .arr items => items.mapM read
  | _ => none

/-- A name out of a fixed choice: the name itself, or an object whose only key is the name and whose
value is `null`. -/
def choice? {α : Type} (ofName : String → Option α) : Json → Option α
  | .str raw => do ofName (← text? (.str raw))
  | .obj [(key, .null)] => do ofName (← text? (.str key))
  | _ => none

/-! ## Fields -/

/-- The key of a member as a text. -/
def key? (member : List Char × Json) : Option String :=
  text? (.str member.1)

/-- What is found of one field: its value, or nothing. -/
abbrev Field := Option Json

namespace Field

/-- The value of a field that must be there. -/
def required {α : Type} (read : Json → Option α) : Field → Option α
  | some v => read v
  | none => none

/-- The value of a field that has a default. -/
def optional {α : Type} (read : Json → Option α) (default : α) : Field → Option α
  | some v => read v
  | none => some default

end Field

/-- The value of the member called `name`; none is fine, more than one is not. -/
def member? (members : List (String × Json)) (name : String) : Option Field :=
  match members.filter (·.1 = name) with
  | [] => some none
  | [(_, v)] => some (some v)
  | _ => none

/-- The members of an object with their keys as texts. -/
def members? (members : List (List Char × Json)) : Option (List (String × Json)) :=
  members.mapM fun m => do return (← key? m, m.2)

/-- The fields called `names`, in that order, out of either presentation. -/
def fields? (names : List String) : Json → Option (List Field)
  | .obj members => do names.mapM (member? (← members? members))
  | .arr items =>
      if items.length ≤ names.length then
        some (items.map some ++ List.replicate (names.length - items.length) none)
      else none
  | _ => none

/-- The kind of a value, and the value without it. -/
def tagged? : Json → Option (String × Json)
  | .obj members => do
      let tag ← member? (← members? members) "kind"
      let kind ← Field.required text? tag
      return (kind, .obj (members.filter fun m => key? m != some "kind"))
  | .arr (v :: vs) => do return (← text? v, .arr vs)
  | _ => none

/-- The document of an object with the given keys. -/
def ofFields (fields : List (String × Json)) : Json :=
  .obj (fields.map fun f => (Quoted.encode f.1.toList, f.2))

/-! ## Documents that can be held

A value of one of several kinds is held as a whole until its kind is known. Holding it asks more of
it than passing it over: every string and key in it denotes a text, no number in it is too large,
and it does not nest too deeply. -/

mutual

/-- Every token of the document denotes a value. -/
def isReadable : Json → Bool
  | .null => true
  | .bool _ => true
  | .num numeral => !Numeral.exceedsDouble numeral
  | .str raw => (Quoted.decode raw).isSome
  | .arr items => areItemsReadable items
  | .obj members => areMembersReadable members

/-- Every token of the items denotes a value. -/
def areItemsReadable : List Json → Bool
  | [] => true
  | v :: vs => isReadable v && areItemsReadable vs

/-- Every token of the members denotes a value, their keys included. -/
def areMembersReadable : List (List Char × Json) → Bool
  | [] => true
  | (k, v) :: ms => (Quoted.decode k).isSome && isReadable v && areMembersReadable ms

end

/-- The document can be held where `levels` containers may be open inside one another. -/
def isHoldable (levels : Nat) (v : Json) : Bool :=
  v.isReadable && v.depth ≤ levels

end StyleZones.Json

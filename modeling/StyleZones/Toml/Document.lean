import StyleZones.Toml.Basic

/-!
# TOML documents

A document is a list of statements: assignments, headers of tables and headers of elements of arrays
of tables. They are put together into one table from top to bottom. A table may be spoken of several
times, but defined only once; how it came about decides what may still be said about it.

* `TableOrigin.header`: by a header of its own, or as a value;
* `TableOrigin.passed`: by a header of a table further in;
* `TableOrigin.dotted`: by a dotted key.

`Document.ofStatements?` is the table, or nothing if a statement contradicts an earlier one.
-/

set_option autoImplicit false

namespace StyleZones.Toml

/-- How a table came about. -/
inductive TableOrigin where
  | header
  | passed
  | dotted
  deriving DecidableEq, Repr

/-- A part of a document in the making. -/
inductive Part where
  /-- A value that has been assigned. -/
  | value (v : Toml)
  /-- A table. -/
  | table (origin : TableOrigin) (entries : List (String × Part))
  /-- An array of tables, the last one first. -/
  | tables (reversed : List (List (String × Part)))

/-- The entries of a table in the making. -/
abbrev Parts := List (String × Part)

/-! ## Values of parts -/

mutual

/-- The value of a part. -/
def Part.toToml : Part → Toml
  | .value v => v
  | .table _ entries => .table (partsToToml entries)
  | .tables reversed => .array (tablesToToml reversed).reverse

/-- The entries with their values. -/
def partsToToml : List (String × Part) → List (String × Toml)
  | [] => []
  | (key, part) :: rest => (key, part.toToml) :: partsToToml rest

/-- The tables of an array with their values. -/
def tablesToToml : List (List (String × Part)) → List Toml
  | [] => []
  | entries :: rest => .table (partsToToml entries) :: tablesToToml rest

end

/-! ## Changing parts -/

/-- The entries with another part under a key that is there. -/
def replacePart (entries : Parts) (key : String) (part : Part) : Parts :=
  entries.map fun e => if e.1 = key then (key, part) else e

/-- Change the table at the end of a path. Tables that are missing on the way are made; an array of
tables leads to its last one. A dotted key may not lead through a table that has a header. -/
def alter (dotted : Bool) (change : TableOrigin → Parts → Option Parts) :
    List String → TableOrigin → Parts → Option Parts
  | [], origin, entries => change origin entries
  | key :: path, _, entries =>
      match entries.lookup key with
      | none => do
          let origin := if dotted then TableOrigin.dotted else .passed
          let inner ← alter dotted change path origin []
          return entries ++ [(key, .table origin inner)]
      | some (.value _) => none
      | some (.table origin inner) =>
          if dotted && origin = .header then none
          else do
            let inner ← alter dotted change path origin inner
            return replacePart entries key (.table origin inner)
      | some (.tables []) => none
      | some (.tables (last :: before)) => do
          let last ← alter dotted change path .header last
          return replacePart entries key (.tables (last :: before))

/-- Assign a value to a dotted key: the path to a table and a key in it. A table that was not made
by dotted keys cannot be reached by one. -/
def assign (path : List String) (key : String) (v : Toml) (entries : Parts) : Option Parts :=
  alter true
    (fun origin entries =>
      if decide (origin = .dotted) == path.isEmpty then none
      else if (entries.lookup key).isSome then none
      else some (entries ++ [(key, .value v)]))
    path .header entries

/-- Open a table by its header. It may have been passed before, but not defined. -/
def openTable (path : List String) (key : String) (entries : Parts) : Option Parts :=
  alter false
    (fun _ entries =>
      match entries.lookup key with
      | none => some (entries ++ [(key, .table .header [])])
      | some (.table .passed inner) => some (replacePart entries key (.table .header inner))
      | some _ => none)
    path .header entries

/-- Open a further element of an array of tables by its header. -/
def openElement (path : List String) (key : String) (entries : Parts) : Option Parts :=
  alter false
    (fun _ entries =>
      match entries.lookup key with
      | none => some (entries ++ [(key, .tables [[]])])
      | some (.tables reversed) => some (replacePart entries key (.tables ([] :: reversed)))
      | some _ => none)
    path .header entries

/-! ## Statements -/

/-- A dotted key: the path to a table, and a key in it. -/
structure DottedKey where
  /-- The keys on the way. -/
  path : List String
  /-- The last key. -/
  key : String

namespace DottedKey

/-- All keys in order. -/
def keys (k : DottedKey) : List String :=
  k.path ++ [k.key]

end DottedKey

/-- A statement of a document. -/
inductive Statement where
  /-- An empty line or a comment. -/
  | blank
  /-- The header of a table. -/
  | table (name : DottedKey)
  /-- The header of an element of an array of tables. -/
  | element (name : DottedKey)
  /-- An assignment in the table of the last header. -/
  | assignment (name : DottedKey) (v : Toml)

/-- A document in the making: its entries, and the path of the last header. -/
structure Document where
  /-- The entries so far. -/
  entries : Parts
  /-- The path of the table that assignments are made in. -/
  current : List String

namespace Document

/-- The document before its first statement. -/
def empty : Document :=
  ⟨[], []⟩

/-- The document after a statement. -/
def extend? (d : Document) : Statement → Option Document
  | .blank => some d
  | .table name => do
      return ⟨← openTable name.path name.key d.entries, name.keys⟩
  | .element name => do
      return ⟨← openElement name.path name.key d.entries, name.keys⟩
  | .assignment name v => do
      let entries ←
        alter false (fun _ entries => assign name.path name.key v entries) d.current .header
          d.entries
      return { d with entries }

/-- The document of a list of statements. -/
def ofStatements? (statements : List Statement) : Option Document :=
  statements.foldlM extend? empty

/-- The document as a table. -/
def toToml (d : Document) : Toml :=
  .table (partsToToml d.entries)

end Document

end StyleZones.Toml

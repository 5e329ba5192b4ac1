import StyleZones.Policy.Marker

/-!
# Policies

A policy holds three lists: directories whose code is not checked, names of types that are not
checked, and base classes that exempt what derives from them. Each list is kept in strictly
increasing order of its texts, so two policies with the same entries are equal, however they came
about.

A policy grows in place: `Policy.update` first looks at every new entry, directories before type
names before base classes, and either reports the first malformed one or adds them all.
`Policy.extend` is the policy that this leaves, if it succeeds.

The order of texts is by code points, which is also the order of their UTF-8 bytes.
-/

set_option autoImplicit false

namespace StyleZones

/-! ## Ordered listings -/

namespace Listing

variable {α : Type}

/-- Add an entry at its place in a list that is ordered by the texts of its entries. An entry whose
text is there already is not added again. -/
def insert (text : α → String) (a : α) : List α → List α
  | [] => [a]
  | b :: bs =>
      if text a < text b then a :: b :: bs
      else if text a = text b then b :: bs
      else b :: insert text a bs

/-- Add several entries. -/
def insertAll (text : α → String) (as bs : List α) : List α :=
  as.foldl (fun bs a => insert text a bs) bs

end Listing

/-! ## Entries -/

/-- Entries for the three lists of a policy, not yet looked at. -/
structure Entries where
  /-- Texts of directory markers. -/
  directories : List String := []
  /-- Names of types. -/
  types : List String := []
  /-- Qualified names of base classes. -/
  bases : List String := []
  deriving DecidableEq

namespace Entries

/-- The name under which the list of type names is configured. -/
def typesCategory : String := "ignored_record_names"

/-- The name under which the list of base classes is configured. -/
def basesCategory : String := "ignored_base_classes"

/-- No name in the list called `category` is empty. -/
def checkNames (category : String) : List String → Except PolicyError Unit
  | [] => .ok ()
  | name :: names =>
      if name.isEmpty then .error (.emptyEntry category) else checkNames category names

/-- The markers of a list of texts, or the first that is not bounded. -/
def markers : List String → Except PolicyError (List Marker)
  | [] => .ok []
  | text :: texts => do
      let m ← Marker.ofText text
      let ms ← markers texts
      return m :: ms

end Entries

/-! ## Policies -/

/-- Which directories, types and base classes are exempt from checking. -/
structure Policy where
  /-- Directories whose code is not checked. -/
  directories : List Marker
  /-- Names of types that are not checked. -/
  types : List String
  /-- Qualified names of base classes that exempt their descendants. -/
  bases : List String
  deriving DecidableEq

namespace Policy

/-- The policy without entries. -/
def empty : Policy :=
  ⟨[], [], []⟩

/-- A change of a policy in place. It may fail, and then leaves the policy as it is by then. -/
abbrev Update := ExceptT PolicyError (StateM Policy)

/-- Add entries in place. Every entry is looked at before any is added. -/
def addEntries (e : Entries) : Update Unit := do
  let ms ← MonadExcept.ofExcept (Entries.markers e.directories)
  MonadExcept.ofExcept (Entries.checkNames Entries.typesCategory e.types)
  MonadExcept.ofExcept (Entries.checkNames Entries.basesCategory e.bases)
  modify fun p => { p with directories := Listing.insertAll Marker.text ms p.directories }
  modify fun p => { p with types := Listing.insertAll id e.types p.types }
  modify fun p => { p with bases := Listing.insertAll id e.bases p.bases }

/-- What comes of adding entries to a policy in place, and the policy after it. -/
def update (p : Policy) (e : Entries) : Except PolicyError Unit × Policy :=
  (addEntries e).run.run p

/-- The policy with further entries. -/
def extend (p : Policy) (e : Entries) : Except PolicyError Policy :=
  match p.update e with
  | (.ok (), q) => .ok q
  | (.error fault, _) => .error fault

/-- The policy with exactly the given entries. -/
def ofEntries (e : Entries) : Except PolicyError Policy :=
  empty.extend e

/-- The first marker, in the order of the list, that stands in the path. -/
def bannedDirectoryIn (p : Policy) (path : String) : Option Marker :=
  p.directories.find? (·.occursIn path)

/-- Types of that name are not checked. -/
def ignoresType (p : Policy) (name : String) : Bool :=
  p.types.contains name

/-- The base class of that qualified name exempts its descendants. -/
def ignoresBase (p : Policy) (name : String) : Bool :=
  p.bases.contains name

/-- How many entries each list has. -/
def sizes (p : Policy) : Nat × Nat × Nat :=
  (p.directories.length, p.types.length, p.bases.length)

end Policy

end StyleZones

/-!
# Source units

A source unit is what a compiler knows about one run over a source file: the files it read, the
positions it speaks of, and the declarations it found. Everything refers to everything else by a
handle, which is the index of an entry as far as a word can hold it.

* A position stands in a file, or in the expansion of a macro, or nowhere. A macro position has two
  links: to where its text is *spelled* and to where the macro is *expanded*.
* Declarations form a tree whose root, declaration 0, is the unit itself. Records name their base
  classes, which may be any declaration, or may be unknown.

Parents and macro links point to smaller indices in every unit that is grown by the edits of
`StyleZones.Unit.Edit`; the walks along them therefore come to an end, and they are defined so as to
end in any case.
-/

set_option autoImplicit false

namespace StyleZones

/-- A file that a unit was read from. -/
structure SourceFile where
  /-- The name given to the compiler. -/
  name : String
  /-- The file was found where system headers are. -/
  system : Bool
  /-- The name that a line directive gave to the file. -/
  presumedName : Option String
  deriving DecidableEq, Repr

namespace SourceFile

/-- The name under which the file is spoken of: the one given by a line directive, if there is
one. -/
def reportedName (f : SourceFile) : String :=
  f.presumedName.getD f.name

end SourceFile

/-- Where something stands. -/
inductive Position where
  /-- In a file, at a line and column counted from one. -/
  | inFile (file : Nat) (line column : UInt32)
  /-- In a macro: its text is spelled at one position, and the macro is expanded at another. -/
  | inMacro (spelling expansion : Nat)
  /-- In no source text. -/
  | invalid
  deriving DecidableEq, Repr

/-- What a declaration declares. A missing name means an anonymous declaration. -/
inductive Entity where
  /-- The unit itself. -/
  | unit
  /-- A namespace. -/
  | nameSpace (name : Option String)
  /-- A class, struct or union, and where it is declared. -/
  | record (name : Option String) (position : Nat)
  /-- An enumeration, and where it is declared. -/
  | enumeration (name : Option String) (position : Nat)
  /-- A function. -/
  | function (name : Option String)
  /-- A block inside a function. -/
  | block
  deriving DecidableEq, Repr

namespace Entity

/-- The declared name. -/
def name : Entity → Option String
  | .unit => none
  | .nameSpace name => name
  | .record name _ => name
  | .enumeration name _ => name
  | .function name => name
  | .block => none

/-- Where the entity is declared; only records and enumerations say so. -/
def position : Entity → Option Nat
  | .record _ position => some position
  | .enumeration _ position => some position
  | _ => none

/-- The entity is a record. -/
def isRecord : Entity → Bool
  | .record _ _ => true
  | _ => false

/-- The entity is a record or an enumeration. -/
def isTag : Entity → Bool
  | .record _ _ => true
  | .enumeration _ _ => true
  | _ => false

end Entity

/-- A declaration. -/
structure Decl where
  /-- What is declared. -/
  entity : Entity
  /-- The declaration it stands in; only the unit itself has none. -/
  parent : Option Nat
  /-- The base classes, in written order. An unknown one is `none`. -/
  bases : List (Option Nat)
  deriving DecidableEq, Repr

namespace Decl

/-- The unit itself as a declaration. -/
def unit : Decl :=
  ⟨.unit, none, []⟩

end Decl

/-- A reference to an entry, as it is given out and stored. -/
inductive Handle where
  /-- To a file. -/
  | file (index : Nat)
  /-- To a position. -/
  | position (index : Nat)
  /-- To a declaration. -/
  | decl (index : Nat)
  deriving DecidableEq, Repr

namespace Handle

/-- A handle is a word of 32 bits. The entries of a table beyond the last word share it. -/
def word (i : Nat) : Nat :=
  min i (UInt32.size - 1)

end Handle

/-- A source unit. -/
structure SourceUnit where
  /-- The files, by index. -/
  files : Array SourceFile
  /-- The positions, by index. -/
  positions : Array Position
  /-- The declarations, by index. -/
  decls : Array Decl
  deriving DecidableEq

namespace SourceUnit

/-- The unit with nothing in it but itself. -/
def empty : SourceUnit :=
  ⟨#[], #[], #[Decl.unit]⟩

variable (u : SourceUnit)

/-! ## Declarations -/

/-- What a declaration declares. -/
def entity? (d : Nat) : Option Entity :=
  u.decls[d]?.map Decl.entity

/-- The declared name of a declaration. -/
def name? (d : Nat) : Option String :=
  u.decls[d]?.bind fun decl => decl.entity.name

/-- The declaration that a declaration stands in. -/
def parent? (d : Nat) : Option Nat :=
  u.decls[d]?.bind Decl.parent

/-- Where a declaration stands. -/
def position? (d : Nat) : Option Nat :=
  u.decls[d]?.bind fun decl => decl.entity.position

/-- The base classes of a declaration. -/
def bases (d : Nat) : List (Option Nat) :=
  (u.decls[d]?.map Decl.bases).getD []

/-- The declaration is a record. -/
def isRecord (d : Nat) : Bool :=
  (u.decls[d]?.map fun decl => decl.entity.isRecord).getD false

/-- The declaration is a record or an enumeration. -/
def isTag (d : Nat) : Bool :=
  (u.decls[d]?.map fun decl => decl.entity.isTag).getD false

/-- The handles to the records and enumerations, in order. -/
def tags : List Nat :=
  ((List.range u.decls.size).filter u.isTag).map Handle.word

/-- The name of a declaration, empty if it is anonymous. -/
def simpleName (d : Nat) : String :=
  (u.name? d).getD ""

/-! What is asked about a declaration, apart from where it stands and what it derives from, is asked
about what it
declares. -/

theorem name?_eq_entity (d : Nat) : u.name? d = (u.entity? d).bind Entity.name := by
  unfold name? entity?
  cases u.decls[d]? <;> rfl

theorem position?_eq_entity (d : Nat) : u.position? d = (u.entity? d).bind Entity.position := by
  unfold position? entity?
  cases u.decls[d]? <;> rfl

theorem isRecord_eq_entity (d : Nat) :
    u.isRecord d = ((u.entity? d).map Entity.isRecord).getD false := by
  unfold isRecord entity?
  cases u.decls[d]? <;> rfl

theorem isTag_eq_entity (d : Nat) : u.isTag d = ((u.entity? d).map Entity.isTag).getD false := by
  unfold isTag entity?
  cases u.decls[d]? <;> rfl

end SourceUnit

end StyleZones

import StyleZones.Unit.Basic

/-!
# Growing a unit

A unit grows entry by entry. An edit adds a file, a position or a declaration at the end of its
table, gives a name to a file, or adds a base class to a declaration; no edit takes anything away.
For a new entry a handle is given out, and it may refer only to entries that are there already,
which is what `Edit.Valid` asks.

Names of records, enumerations and functions are empty if there is none; a namespace says whether it
has a name.
-/

set_option autoImplicit false

namespace StyleZones

/-- One step in the growth of a unit. -/
inductive Edit where
  /-- A file, and whether it was found where system headers are. -/
  | addFile (name : String) (system : Bool)
  /-- A line directive: a file is spoken of by another name. -/
  | lineDirective (file : Nat) (name : String)
  /-- A position in a file. -/
  | addPosition (file : Nat) (line column : UInt32)
  /-- A position in a macro. -/
  | addMacro (spelling expansion : Nat)
  /-- A position in no source text. -/
  | addInvalid
  /-- A namespace. -/
  | addNamespace (parent : Nat) (name : Option String)
  /-- A record. -/
  | addRecord (parent : Nat) (name : String) (position : Nat)
  /-- An enumeration. -/
  | addEnumeration (parent : Nat) (name : String) (position : Nat)
  /-- A function. -/
  | addFunction (parent : Nat) (name : String)
  /-- A block. -/
  | addBlock (parent : Nat)
  /-- A further base class of a declaration; `none` if it is unknown. -/
  | addBase (decl : Nat) (base : Option Nat)
  deriving DecidableEq, Repr

/-- An empty name is no name. -/
def nonEmptyName (name : String) : Option String :=
  if name = "" then none else some name

namespace SourceUnit

variable (u : SourceUnit)

/-- The unit with a further file. -/
def addFile (file : SourceFile) : SourceUnit :=
  { u with files := u.files.push file }

/-- The unit with a further position. -/
def addPosition (position : Position) : SourceUnit :=
  { u with positions := u.positions.push position }

/-- The unit with a further declaration in the scope `parent`. -/
def addDecl (parent : Nat) (entity : Entity) : SourceUnit :=
  { u with decls := u.decls.push ⟨entity, some parent, []⟩ }

/-- The unit in which a file is spoken of by another name. -/
def renameFile (file : Nat) (name : String) : SourceUnit :=
  { u with files := u.files.modify file fun f => { f with presumedName := some name } }

/-- The unit in which a declaration has a further base class. -/
def addBase (decl : Nat) (base : Option Nat) : SourceUnit :=
  { u with decls := u.decls.modify decl fun d => { d with bases := d.bases ++ [base] } }

/-! An entry that is added gets the next word of its table as its handle. -/

/-- The handle that is given out for a further file. -/
def nextFile : Nat :=
  Handle.word u.files.size

/-- The handle that is given out for a further position. -/
def nextPosition : Nat :=
  Handle.word u.positions.size

/-- The handle that is given out for a further declaration. -/
def nextDecl : Nat :=
  Handle.word u.decls.size

/-- The unit after an edit. -/
def apply : Edit → SourceUnit
  | .addFile name system => u.addFile ⟨name, system, none⟩
  | .lineDirective file name => u.renameFile file name
  | .addPosition file line column => u.addPosition (.inFile file line column)
  | .addMacro spelling expansion => u.addPosition (.inMacro spelling expansion)
  | .addInvalid => u.addPosition .invalid
  | .addNamespace parent name => u.addDecl parent (.nameSpace name)
  | .addRecord parent name position => u.addDecl parent (.record (nonEmptyName name) position)
  | .addEnumeration parent name position =>
      u.addDecl parent (.enumeration (nonEmptyName name) position)
  | .addFunction parent name => u.addDecl parent (.function (nonEmptyName name))
  | .addBlock parent => u.addDecl parent .block
  | .addBase decl base => u.addBase decl base

/-- The unit after a run of edits. -/
def applyAll (edits : List Edit) : SourceUnit :=
  edits.foldl apply u

end SourceUnit

namespace Edit

/-- The edit refers only to entries that the unit has. -/
def Valid (u : SourceUnit) : Edit → Prop
  | .addFile _ _ => True
  | .lineDirective file _ => file < u.files.size
  | .addPosition file _ _ => file < u.files.size
  | .addMacro spelling expansion =>
      spelling < u.positions.size ∧ expansion < u.positions.size
  | .addInvalid => True
  | .addNamespace parent _ => parent < u.decls.size
  | .addRecord parent _ position => parent < u.decls.size ∧ position < u.positions.size
  | .addEnumeration parent _ position => parent < u.decls.size ∧ position < u.positions.size
  | .addFunction parent _ => parent < u.decls.size
  | .addBlock parent => parent < u.decls.size
  | .addBase decl base => decl < u.decls.size ∧ ∀ b ∈ base, b < u.decls.size

instance (u : SourceUnit) : (e : Edit) → Decidable (e.Valid u)
  | .addFile _ _ => inferInstanceAs (Decidable True)
  | .lineDirective file _ => inferInstanceAs (Decidable (file < u.files.size))
  | .addPosition file _ _ => inferInstanceAs (Decidable (file < u.files.size))
  | .addMacro spelling expansion =>
      inferInstanceAs (Decidable (spelling < u.positions.size ∧ expansion < u.positions.size))
  | .addInvalid => inferInstanceAs (Decidable True)
  | .addNamespace parent _ => inferInstanceAs (Decidable (parent < u.decls.size))
  | .addRecord parent _ position =>
      inferInstanceAs (Decidable (parent < u.decls.size ∧ position < u.positions.size))
  | .addEnumeration parent _ position =>
      inferInstanceAs (Decidable (parent < u.decls.size ∧ position < u.positions.size))
  | .addFunction parent _ => inferInstanceAs (Decidable (parent < u.decls.size))
  | .addBlock parent => inferInstanceAs (Decidable (parent < u.decls.size))
  | .addBase decl base =>
      inferInstanceAs (Decidable (decl < u.decls.size ∧ ∀ b ∈ base, b < u.decls.size))

end Edit

end StyleZones

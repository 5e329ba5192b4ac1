import StyleZones.Unit.Basic

/-!
# Snapshots

A snapshot is a source unit as it is written down: three lists whose entries refer to one another by
their places. The unit itself is not listed, so a declaration without a parent stands in the unit,
and entry `i` of the list of declarations is declaration `i + 1` of the unit.

Nothing is promised about the references; `Snapshot.load` of `StyleZones.Snapshot.Load` looks at
them.
-/

set_option autoImplicit false

namespace StyleZones

/-- A position as it is written down. -/
inductive PositionEntry where
  /-- In a file, by its place among the files. -/
  | inFile (file : UInt64) (line column : UInt32)
  /-- In a macro, by the places of two earlier positions. -/
  | inMacro (spelling expansion : UInt64)
  /-- In no source text. -/
  | invalid
  deriving DecidableEq, Repr

/-- A declaration as it is written down. Records, enumerations and functions without a name have the
empty name; a namespace says whether it has one. -/
inductive DeclEntry where
  /-- A namespace. -/
  | nameSpace (name : Option String) (parent : Option UInt64)
  /-- A record, with its position and base classes; an unknown base class is `none`. -/
  | record (name : String) (parent : Option UInt64) (position : UInt64)
      (bases : List (Option UInt64))
  /-- An enumeration, with its position. -/
  | enumeration (name : String) (parent : Option UInt64) (position : UInt64)
  /-- A function. -/
  | function (name : String) (parent : Option UInt64)
  /-- A block. -/
  | block (parent : Option UInt64)
  deriving DecidableEq, Repr

namespace DeclEntry

/-- The place of the declaration that an entry stands in; none if it stands in the unit. -/
def parent : DeclEntry → Option UInt64
  | .nameSpace _ parent => parent
  | .record _ parent _ _ => parent
  | .enumeration _ parent _ => parent
  | .function _ parent => parent
  | .block parent => parent

/-- The place of the entry's position, if it has one. -/
def position : DeclEntry → Option UInt64
  | .record _ _ position _ => some position
  | .enumeration _ _ position => some position
  | _ => none

/-- The places of the entry's base classes. -/
def bases : DeclEntry → List (Option UInt64)
  | .record _ _ _ bases => bases
  | _ => []

end DeclEntry

/-- A source unit as it is written down. -/
structure Snapshot where
  /-- The files. -/
  files : List SourceFile
  /-- The positions. -/
  positions : List PositionEntry
  /-- The declarations, the unit itself left out. -/
  decls : List DeclEntry
  deriving DecidableEq, Repr

end StyleZones

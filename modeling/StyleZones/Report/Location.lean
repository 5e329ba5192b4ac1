import StyleZones.Path.Components

/-!
# Locations

Where a finding is reported: a file, a line and a column. Locations are ordered by the components of
their files, then by line, then by column. Files that lead the same way tie, however they are
written.
-/

set_option autoImplicit false

namespace StyleZones

/-- A place in a file. -/
structure Location where
  /-- The file, as it is reported. -/
  file : String
  /-- The line, counted from one. -/
  line : UInt32
  /-- The column, counted from one. -/
  column : UInt32
  deriving DecidableEq, Repr

namespace Location

/-- The location of what stands in no source text. -/
def unknown : Location :=
  ⟨"<unknown>", 0, 0⟩

/-- The order of locations. -/
def compare (a b : Location) : Ordering :=
  (Path.compare a.file b.file).then
    ((compareOfLessAndEq a.line.toNat b.line.toNat).then
      (compareOfLessAndEq a.column.toNat b.column.toNat))

/-- The first location does not come after the second. -/
def notAfter (a b : Location) : Bool :=
  (compare a b).isLE

/-- The locations are the same place: their files lead the same way, and line and column agree. -/
def samePlace (a b : Location) : Bool :=
  Path.components a.file == Path.components b.file && a.line == b.line && a.column == b.column

end Location

end StyleZones

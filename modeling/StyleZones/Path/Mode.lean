import StyleZones.Text.Search

/-!
# Path modes

Markers are searched for in whole paths, so a file name as the compiler reports it is first turned
into one. Two ways of doing so are offered, because a build that runs elsewhere reports names that
do not exist where the checker runs:

* `PathMode.resolve` asks the disk for the absolute path that names the same file without links, and
  keeps a name that the disk cannot resolve;
* `PathMode.skip` puts a separator in front and asks nobody.

Either way every backslash becomes a separator. The disk enters only as a function `RealPath`, a
partial function on names.
-/

set_option autoImplicit false

namespace StyleZones

/-- What a disk says about a name: the absolute path without links, if the name resolves. -/
abbrev RealPath := String → Option String

/-- How reported file names become paths. -/
inductive PathMode where
  /-- By the disk. -/
  | resolve
  /-- By a separator in front. -/
  | skip
  deriving DecidableEq, Repr

namespace PathMode

/-- The mode that the option against resolving paths selects. -/
def ofNoRealpath (noRealpath : Bool) : PathMode :=
  if noRealpath then .skip else .resolve

/-- Every backslash as a separator. -/
def unifySeparators (path : String) : String :=
  String.ofList (path.toList.map fun c => if c = '\\' then '/' else c)

/-- The path that a file name stands for. -/
def normalize (real : RealPath) : PathMode → String → String
  | .skip, raw => unifySeparators ("/" ++ raw)
  | .resolve, raw => unifySeparators ((real raw).getD raw)

end PathMode

end StyleZones

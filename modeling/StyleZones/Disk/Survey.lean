import StyleZones.Disk.Basic

/-!
# Surveys

What has been found out about a file system, as finitely many answers. A survey is a disk that knows
nothing else: a path that was not looked at leads nowhere.
-/

set_option autoImplicit false

namespace StyleZones

/-- Answers that a file system has given. -/
structure Survey where
  /-- What paths lead to. -/
  kinds : List (String × EntryKind) := []
  /-- What came of reading files. -/
  texts : List (String × Except DiskError String) := []
  /-- The real paths of names. -/
  reals : List (String × String) := []
  /-- The paths below directories that may lead to snapshots. -/
  listings : List (String × List String) := []

namespace Survey

/-- The survey as a disk. Whether a file can be written is not part of it. -/
def disk (s : Survey) : Disk where
  kind := fun path => s.kinds.lookup path
  read := fun path => (s.texts.lookup path).getD (.error .missing)
  real := fun name => s.reals.lookup name
  jsonPaths := fun directory => (s.listings.lookup directory).getD []
  refusal := fun _ => none

end Survey

end StyleZones

import StyleZones.Disk.Basic
import StyleZones.Snapshot.Json
import StyleZones.Snapshot.Load

/-!
# Snapshots from texts and files

Reading a unit goes through three stages, each with its own way to fail: the file is read, its text
is read as a snapshot, and the snapshot is loaded. A fault of an earlier stage hides those of the
later ones.

`SnapshotError.message` is what is said about a failure, and `SnapshotError.causes` what lies
beneath it, each cause again in words.
-/

set_option autoImplicit false

namespace StyleZones

/-- Why there is no unit. -/
inductive SnapshotError where
  /-- The file cannot be read. -/
  | unreadable (path : String) (error : DiskError)
  /-- The text is not a snapshot. -/
  | malformed
  /-- A reference of the snapshot leads nowhere. -/
  | faulty (error : LoadError)
  deriving DecidableEq, Repr

namespace SnapshotError

/-- What is said about a text that is not a snapshot. -/
def malformedDetail : String :=
  "the text is not a snapshot"

/-- What is said about a failure. -/
def message : SnapshotError → String
  | .unreadable path error => "Failed to read snapshot " ++ path ++ ": " ++ error.message
  | .malformed => "JSON parse error: " ++ malformedDetail
  | .faulty error => error.message

/-- What lies beneath a failure. -/
def causes : SnapshotError → List String
  | .unreadable _ error => [error.message]
  | .malformed => [malformedDetail]
  | .faulty error => [error.message]

end SnapshotError

namespace Snapshot

/-- The unit of a snapshot. -/
def toUnit (s : Snapshot) : Except SnapshotError SourceUnit :=
  match s.load with
  | .ok u => .ok u
  | .error e => .error (.faulty e)

/-- The unit of the snapshot that a document holds. -/
def unitOfDocument (v : Json) : Except SnapshotError SourceUnit :=
  match ofDocument? v with
  | some s => s.toUnit
  | none => .error .malformed

/-- The unit of the snapshot that a text holds. -/
def unitOfText (text : String) : Except SnapshotError SourceUnit :=
  match ofText? text with
  | some s => s.toUnit
  | none => .error .malformed

/-- The unit of the snapshot that a file holds. -/
def unitOfFile (disk : Disk) (path : String) : Except SnapshotError SourceUnit :=
  match disk.read path with
  | .ok text => unitOfText text
  | .error e => .error (.unreadable path e)

end Snapshot

end StyleZones

import StyleZones.Command.Run
import StyleZones.Disk.Survey

/-!
# What a run asks of the disk

The questions that a run may put to a disk, so that they can be answered before it: first those that
the command line raises, then those that the snapshots raise.
-/

set_option autoImplicit false

namespace StyleZones.Inquiry

/-- The paths that a run may look at, apart from snapshots in a directory. -/
def paths (env : Environment) (o : Overrides) (action : Action) : List String :=
  let operand := match action with
    | .check path _ => [path]
    | _ => []
  Lookup.projectFiles ++ (Lookup.globalFile? env).toList ++ o.config.toList ++ operand ++
    [Template.path]

/-- The directory below which a run may search. -/
def searched? : Action → Option String
  | .check path _ => Command.searchRoot? path
  | _ => none

/-- The names that a unit may have classified. -/
def namesOfUnit (u : SourceUnit) : List String :=
  u.files.toList.map SourceFile.reportedName

/-- The names that a run may have classified, once its snapshots are known. -/
def names (disk : Disk) : Action → List String
  | .check path _ =>
      match Command.snapshots disk path with
      | .ok files =>
          (files.filterMap fun f => (Command.loadUnit disk f).toOption).flatMap namesOfUnit
      | .error _ => []
  | .classify paths => paths
  | _ => []

end StyleZones.Inquiry

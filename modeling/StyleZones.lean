import StyleZones.Config.Json
import StyleZones.Disk.FileTree
import StyleZones.Main
import StyleZones.Proofs.Check.Run
import StyleZones.Proofs.Snapshot.Load
import StyleZones.Proofs.Snapshot.Image
import StyleZones.Proofs.Snapshot.Position
import StyleZones.Proofs.Check.Dispatch
import StyleZones.Proofs.Check.Legible
import StyleZones.Proofs.Check.Narrowing
import StyleZones.Proofs.Unit.Stability
import StyleZones.Proofs.Check.Stability
import StyleZones.Proofs.Check.Influence
import StyleZones.Proofs.Check.Rearrangement
import StyleZones.Proofs.Policy.Extension
import StyleZones.Proofs.Policy.Canonical
import StyleZones.Proofs.Command.Check
import StyleZones.Proofs.Command.Classify
import StyleZones.Proofs.Unit.Worklist
import StyleZones.Proofs.Path.Runs
import StyleZones.Proofs.Snapshot.Json
import StyleZones.Proofs.Unit.Lineage
import StyleZones.Proofs.Unit.QualifiedName
import StyleZones.Proofs.Unit.Namespace
import StyleZones.Proofs.Unit.NameAgreement
import StyleZones.Proofs.Unit.Implementation
import StyleZones.Proofs.Check.Recipe
import StyleZones.Proofs.Json.Denotation
import StyleZones.Proofs.Json.Presentation
import StyleZones.Proofs.Report.Json
import StyleZones.Proofs.Snapshot.Presentation
import StyleZones.Proofs.Order.Preorder
import StyleZones.Proofs.Command.Lookup
import StyleZones.Proofs.Path.Modes

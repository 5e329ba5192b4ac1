import StyleZones.Report.Basic
import StyleZones.Unit.Bases
import StyleZones.Unit.Position

/-!
# Checks

A check looks at one class or enumeration at a time and gives its findings. It sees the unit, the
policy and the options through a `CheckContext`, and the declaration with its zone and position as a
`Subject`.
-/

set_option autoImplicit false

namespace StyleZones

/-- What a run can be told besides its policy. -/
structure Options where
  /-- Take file names as the compiler reports them instead of resolving them. -/
  noRealpath : Bool := false
  /-- Report findings as errors. -/
  warningsAsErrors : Bool := false
  /-- How much of the enclosing namespaces checks are shown. -/
  namespaceMode : NamespaceMode := .outermost
  deriving DecidableEq, Repr

namespace Options

/-- How file names become paths under the options. -/
def pathMode (o : Options) : PathMode :=
  PathMode.ofNoRealpath o.noRealpath

/-- The severity of findings for which a check does not choose one. -/
def diagnosticLevel (o : Options) : Severity :=
  if o.warningsAsErrors then .error else .warning

end Options

/-- What a check may look at. -/
structure CheckContext where
  /-- The unit. -/
  unit : SourceUnit
  /-- The policy. -/
  policy : Policy
  /-- The options. -/
  options : Options

/-- A declaration that is up for checking. -/
structure Subject where
  /-- Its zone. -/
  zone : Zone
  /-- Its position. -/
  position : Nat
  /-- The declaration. -/
  decl : Nat
  deriving DecidableEq, Repr

namespace CheckContext

/-- The namespace of a declaration, as the options want it shown. -/
def namespaceOf (ctx : CheckContext) (decl : Nat) : String :=
  ctx.unit.namespaceOf ctx.options.namespaceMode decl

/-- The declaration derives from a base class that the policy ignores. -/
def hasIgnoredBase (ctx : CheckContext) (decl : Nat) : Bool :=
  ctx.unit.hasIgnoredBase ctx.policy decl

/-- Where a position is reported. -/
def locationOf (ctx : CheckContext) (position : Nat) : Location :=
  match ctx.unit.presumedLocation? position with
  | some l => ⟨l.file, l.line, l.column⟩
  | none => .unknown

/-- A finding about a subject, reported at its position and under its qualified name. -/
def finding (ctx : CheckContext) (code check : String) (severity : Severity) (s : Subject)
    (message : String) : Finding where
  code := code
  check := check
  severity := severity
  zone := s.zone
  declaration := ctx.unit.qualifiedName s.decl
  location := ctx.locationOf s.position
  message := message

end CheckContext

/-- A check of classes and enumerations. -/
structure Check where
  /-- A short code. -/
  code : String
  /-- A name. -/
  name : String
  /-- What the check is for. -/
  description : String
  /-- The findings about a class. -/
  onClass : CheckContext → Subject → List Finding
  /-- The findings about an enumeration. -/
  onEnumeration : CheckContext → Subject → List Finding := fun _ _ => []

end StyleZones

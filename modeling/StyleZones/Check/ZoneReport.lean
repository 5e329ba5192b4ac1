import StyleZones.Check.Basic

/-!
# The zone report

A check that says of every class and enumeration which zone and namespace it is in, whether it is
declared in an implementation file, and, for classes, whether it derives from an ignored base class.
-/

set_option autoImplicit false

namespace StyleZones.ZoneReport

/-- The code of the check. -/
def code : String := "CS001"

/-- The name of the check. -/
def name : String := "zone-report"

/-- What the check is for. -/
def description : String :=
  "Reports the zone and namespace of every checked class and enum"

/-- What is said about a declaration of the given kind. -/
def describe (ctx : CheckContext) (kind : String) (s : Subject) : String :=
  kind ++ " '" ++ ctx.unit.simpleName s.decl ++ "' in " ++ s.zone.name ++ " zone, namespace '" ++
    ctx.namespaceOf s.decl ++ "', declared in " ++
    (if ctx.unit.inImplementationFile s.position then "implementation file" else "header")

/-- What is added about a class that derives from an ignored base class. -/
def ignoredBaseNote : String :=
  ", derives from an ignored base"

/-- The severity of the findings: the pinned one, or the one that the options say. -/
def severityIn (pinned : Option Severity) (ctx : CheckContext) : Severity :=
  pinned.getD ctx.options.diagnosticLevel

/-- The finding about a class. -/
def classFinding (pinned : Option Severity) (ctx : CheckContext) (s : Subject) : Finding :=
  ctx.finding code name (severityIn pinned ctx) s
    (describe ctx "class" s ++ if ctx.hasIgnoredBase s.decl then ignoredBaseNote else "")

/-- The finding about an enumeration. -/
def enumerationFinding (pinned : Option Severity) (ctx : CheckContext) (s : Subject) : Finding :=
  ctx.finding code name (severityIn pinned ctx) s (describe ctx "enum" s)

/-- The check. Its findings have the pinned severity, if one is given. -/
def check (pinned : Option Severity) : Check where
  code := code
  name := name
  description := description
  onClass := fun ctx s => [classFinding pinned ctx s]
  onEnumeration := fun ctx s => [enumerationFinding pinned ctx s]

end StyleZones.ZoneReport

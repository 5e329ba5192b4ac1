import StyleZones.Report.Location
import StyleZones.Text.Decimal
import StyleZones.Zone

/-!
# Findings

What a check has to say about a declaration, and the two ways of putting it: on one line
(`Finding.line`), or as a block with the declaration named beneath (`Finding.block`).
-/

set_option autoImplicit false

namespace StyleZones

/-- How serious a finding is. -/
inductive Severity where
  /-- For information. -/
  | info
  /-- A warning. -/
  | warning
  /-- An error: a run with one fails. -/
  | error
  deriving DecidableEq, Repr

namespace Severity

/-- The name of a severity. -/
def name : Severity → String
  | .info => "info"
  | .warning => "warning"
  | .error => "error"

/-- The severity of that name. -/
def ofName? (s : String) : Option Severity :=
  if s = "info" then some .info
  else if s = "warning" then some .warning
  else if s = "error" then some .error
  else none

theorem ofName?_name (s : Severity) : ofName? s.name = some s := by
  cases s <;> rfl

/-- The severities from the least to the most serious. -/
def rank : Severity → Nat
  | .info => 0
  | .warning => 1
  | .error => 2

/-- Severities in the order of their rank. -/
def compare (a b : Severity) : Ordering :=
  compareOfLessAndEq a.rank b.rank

end Severity

/-- What a check has to say about a declaration. -/
structure Finding where
  /-- The code of the check. -/
  code : String
  /-- The name of the check. -/
  check : String
  /-- How serious it is. -/
  severity : Severity
  /-- The zone of the declaration. -/
  zone : Zone
  /-- The qualified name of the declaration, empty if there is none to name. -/
  declaration : String
  /-- Where it is reported. -/
  location : Location
  /-- What is said. -/
  message : String
  deriving DecidableEq, Repr

namespace Location

/-- A location as file, line and column between colons. -/
def text (l : Location) : String :=
  l.file ++ ":" ++ Decimal.text l.line.toNat ++ ":" ++ Decimal.text l.column.toNat

end Location

namespace Finding

/-- A finding on one line. -/
def line (f : Finding) : String :=
  f.location.text ++ ": " ++ f.severity.name ++ " [" ++ f.code ++ "] " ++ f.message

/-- A finding as a block of lines, each with its end. -/
def block (f : Finding) : String :=
  f.code ++ " " ++ f.check ++ " at " ++ f.location.text ++ "\n" ++
    "  " ++ f.severity.name ++ ": " ++ f.message ++ "\n" ++
    (if f.declaration.isEmpty then ""
      else "  = declaration: " ++ f.declaration ++ " (" ++ f.zone.name ++ ")\n")

end Finding

end StyleZones

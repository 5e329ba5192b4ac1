import StyleZones.Report.Finding

/-!
# Reports

The findings of a run and two counts: how many declarations were seen, and how many of them were
checked. Reports are put together by `Report.append`, which keeps the findings in order and adds the
counts; counts are 64-bit words, as they are written.
-/

set_option autoImplicit false

namespace StyleZones

/-- The outcome of a run of checks. -/
structure Report where
  /-- The findings. -/
  findings : List Finding
  /-- How many declarations were seen. -/
  seen : UInt64
  /-- How many declarations were checked. -/
  checked : UInt64
  deriving DecidableEq, Repr

namespace Report

/-- The report of a run that saw nothing. -/
def empty : Report :=
  ⟨[], 0, 0⟩

/-- One report after another. -/
def append (a b : Report) : Report :=
  ⟨a.findings ++ b.findings, a.seen + b.seen, a.checked + b.checked⟩

/-- Some finding is an error. -/
def hasErrors (r : Report) : Bool :=
  r.findings.any fun f => f.severity = .error

/-- The findings in a zone. -/
def inZone (r : Report) (zone : Zone) : List Finding :=
  r.findings.filter fun f => f.zone = zone

/-- How many findings have the severity. -/
def count (r : Report) (severity : Severity) : Nat :=
  r.findings.countP fun f => f.severity = severity

/-- The report in one line. -/
def summary (r : Report) : String :=
  "Found " ++ Decimal.text (r.count .error) ++ " error(s), " ++
    Decimal.text (r.count .warning) ++ " warning(s), " ++
    Decimal.text (r.count .info) ++ " info(s) in " ++
    Decimal.text r.checked.toNat ++ " of " ++ Decimal.text r.seen.toNat ++ " declaration(s)"

/-- The report with its findings in the order of their locations. Findings at the same place stay in
order. -/
def sorted (r : Report) : Report :=
  { r with findings := r.findings.mergeSort fun a b => a.location.notAfter b.location }

end Report

end StyleZones

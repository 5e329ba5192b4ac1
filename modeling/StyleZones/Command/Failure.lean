import StyleZones.Text.Decimal
import StyleZones.Text.Search

/-!
# Failures

A command that fails says what it could not do and, beneath that, the causes from the outermost to
the innermost. A single cause stands by itself; several are numbered. A cause that runs over several
lines keeps its lines under one another.
-/

set_option autoImplicit false

namespace StyleZones

/-- Why a command failed. -/
structure Failure where
  /-- What could not be done. -/
  headline : String
  /-- The causes, from the outermost to the innermost. -/
  causes : List String := []
  deriving DecidableEq, Repr

namespace Failure

/-- A cause behind its label; further lines are indented as far as the label reaches. -/
def indented (label : String) (cause : String) : String :=
  let margin := String.ofList (List.replicate label.length ' ')
  label ++ ("\n" ++ margin).intercalate (Text.split '\n' cause)

/-- The label of a numbered cause, set to five places. -/
def numberLabel (n : Nat) : String :=
  let digits := Decimal.text n
  String.ofList (List.replicate (5 - digits.length) ' ') ++ digits ++ ": "

/-- The causes one under the other, each on a new line. -/
def causeLines : List String → List String
  | [cause] => [indented "    " cause]
  | causes => causes.zipIdx.map fun c => indented (numberLabel c.2) c.1

/-- The report of a failure. -/
def report (f : Failure) : String :=
  "Error: " ++ f.headline ++
    (if f.causes.isEmpty then ""
      else "\n\nCaused by:\n" ++ "\n".intercalate (causeLines f.causes))

end Failure

end StyleZones

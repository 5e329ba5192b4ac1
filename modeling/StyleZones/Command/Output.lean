import StyleZones.Command.Arguments
import StyleZones.Command.Lookup
import StyleZones.Report.Json

/-!
# What commands print

The texts that commands write to standard output.
-/

set_option autoImplicit false

namespace StyleZones.Output

/-- Lines, each with its end. -/
def lines (ls : List String) : String :=
  String.join (ls.map (· ++ "\n"))

/-- A text with blanks after it up to a width in characters. -/
def padRight (width : Nat) (s : String) : String :=
  s ++ String.ofList (List.replicate (width - s.length) ' ')

/-! ## Reports -/

/-- The escape sequence of a colour. -/
def colour (code : String) : String :=
  "\x1b[" ++ code ++ "m"

/-- The colour of a summary: red with errors, yellow with warnings, else green. -/
def summaryColour (r : Report) : String :=
  if 0 < r.count .error then colour "31"
  else if 0 < r.count .warning then colour "33"
  else colour "32"

/-- A report in a format. -/
def report (format : Format) (r : Report) : String :=
  match format with
  | .text =>
      lines (r.findings.map Finding.block ++ [summaryColour r ++ r.summary ++ colour "0"])
  | .json => lines [r.toJson.pretty]
  | .compact => lines (r.findings.map Finding.line)

/-! ## Zones -/

/-- The width of the column of paths: the most bytes that a path has. -/
def pathWidth (paths : List String) : Nat :=
  (paths.map String.utf8ByteSize).foldl max 0

/-- Paths with their zones. -/
def zones (zoneOf : String → Zone) (paths : List String) : String :=
  lines (paths.map fun path => padRight (pathWidth paths) path ++ "  " ++ (zoneOf path).name)

/-! ## Policies -/

/-- A truth value in words. -/
def truth (b : Bool) : String :=
  if b then "true" else "false"

/-- The title of a mode of showing namespaces. -/
def modeTitle : NamespaceMode → String
  | .outermost => "Outermost"
  | .qualified => "Qualified"

/-- An option with its value. -/
def option (name value : String) : String :=
  "  " ++ padRight 20 name ++ " " ++ value

/-- A list with its title. -/
def listing (title : String) (entries : List String) : List String :=
  ["", title ++ ":"] ++ if entries.isEmpty then ["  (none)"] else entries.map ("  " ++ ·)

/-- The policy and options in effect. -/
def policy (source : ConfigSource) (o : Options) (p : Policy) : String :=
  lines (
    ["Configuration: " ++ source.text, "",
      "Options:",
      option "no_realpath" (truth o.noRealpath),
      option "warnings_as_errors" (truth o.warningsAsErrors),
      option "namespace_mode" (modeTitle o.namespaceMode)] ++
    listing "Banned directories" (p.directories.map Marker.text) ++
    listing "Ignored record names" p.types ++
    listing "Ignored base classes" p.bases)

end StyleZones.Output

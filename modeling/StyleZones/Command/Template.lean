/-!
# The configuration file for a start

What the command for starting a configuration writes: every option and list at its default, with a
comment.
-/

set_option autoImplicit false

namespace StyleZones.Template

/-- The name of the file. -/
def path : String := "chrome-style.toml"

/-- The text of the file, line by line. -/
def templateLines : List String := [
  "# chrome-style configuration",
  "",
  "[options]",
  "# Use compiler-reported paths as-is instead of resolving them on disk.",
  "no_realpath = false",
  "",
  "# Report check findings as errors.",
  "warnings_as_errors = false",
  "",
  "# Namespace handed to checks: \"outermost\" or \"qualified\".",
  "namespace_mode = \"outermost\"",
  "",
  "[policy]",
  "# Extend the built-in lists. Set to false to replace them.",
  "inherit_defaults = true",
  "",
  "# Directories that are never checked. Each entry must start and end with '/'.",
  "banned_directories = []",
  "",
  "# Class and enum names that are never checked.",
  "ignored_record_names = []",
  "",
  "# Fully qualified base classes whose subclasses are exempt.",
  "ignored_base_classes = []"]

/-- The text of the file. -/
def text : String :=
  String.join (templateLines.map (· ++ "\n"))

end StyleZones.Template

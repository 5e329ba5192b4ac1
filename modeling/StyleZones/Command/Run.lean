import StyleZones.Check.Recipe
import StyleZones.Check.ZoneReport
import StyleZones.Command.Output
import StyleZones.Command.Template
import StyleZones.Snapshot.Source

/-!
# Running commands

A command is a function of the disk and the environment. It prints something, or fails and prints
nothing; one command also writes a file. What comes of a run is an `Outcome`.

* `Command.check` checks the snapshots at a path. All of them are loaded before anything is printed,
  and their reports are put one after another in the order of their paths;
* `Command.classify`, `Command.showPolicy` and `Command.init` are the other commands;
* `Command.run` does what a command line asks for.
-/

set_option autoImplicit false

namespace StyleZones

/-- What comes of a run. -/
structure Outcome where
  /-- What is printed. -/
  output : String := ""
  /-- Why the run failed. -/
  failure : Option Failure := none
  /-- The exit status. -/
  status : Nat := 0
  /-- A file to be written: its path and text. -/
  written : Option (String × String) := none
  deriving DecidableEq, Repr

namespace Outcome

/-- A run that printed something. -/
def success (output : String) : Outcome :=
  { output }

/-- A run that failed. -/
def ofFailure (f : Failure) : Outcome :=
  { failure := some f, status := 1 }

/-- A command line that is not used properly. -/
def misuse : Outcome :=
  { status := 2 }

/-- The outcome of a run that may fail. -/
def ofExcept : Except Failure Outcome → Outcome
  | .ok o => o
  | .error f => ofFailure f

end Outcome

namespace Command

variable (disk : Disk) (env : Environment)

/-! ## Snapshots -/

/-- Go from a directory to an entry of it, as it is written in the paths of what lies below. The
working directory leaves no trace, and has no entry without a name. -/
def descend (directory name : String) : Option String :=
  if directory = "." then if name.isEmpty then none else some name
  else some (Path.join directory name)

/-- The directory below which snapshots are searched, as it is written in their paths. The
separators and dots at the front of an absolute path are kept as they are. -/
def searchRoot? (path : String) : Option String :=
  match Text.split '/' path with
  | "" :: names =>
      let front := names.takeWhile fun name => name.isEmpty || name = "."
      let rest := names.dropWhile fun name => name.isEmpty || name = "."
      rest.foldlM descend ("/".intercalate ("" :: front) ++ "/")
  | names => names.foldlM descend "."

/-- The snapshots at a path: the file itself, or the regular files below a directory whose names end
in `.json`, in the order of their paths. -/
def snapshots (path : String) : Except Failure (List String) :=
  if disk.isFile path then .ok [path]
  else if disk.isDirectory path then
    .ok ((((searchRoot? path).map disk.jsonPaths).getD []).filter disk.isFile
      |>.mergeSort fun a b => (Path.compare a b).isLE)
  else .error ⟨"No such file or directory: " ++ path, []⟩

/-- The unit of the snapshot in a file. -/
def loadUnit (path : String) : Except Failure SourceUnit :=
  match Snapshot.unitOfFile disk path with
  | .ok u => .ok u
  | .error e => .error ⟨"Failed to load snapshot: " ++ path, e.message :: e.causes⟩

/-! ## Commands -/

/-- The checker of a configuration: it reports zones. -/
def checker (config : Config) : Except Failure Checker :=
  match (Recipe.ofSteps [.config config, .check (ZoneReport.check none)]).build with
  | .ok c => .ok c
  | .error e => .error ⟨"Failed to build checker", e.message :: e.causes⟩

/-- The report about the snapshots in files, one after another. -/
def checkFiles (c : Checker) (paths : List String) : Except Failure Report :=
  paths.foldlM
    (fun r path => do return r.append (c.checkUnit disk.real (← loadUnit disk path)))
    .empty

/-- Check the snapshots at a path. -/
def check (o : Overrides) (path : String) (format : Format) : Except Failure Outcome := do
  let (config, _) ← Lookup.load disk env o
  let c ← checker config
  let files ← snapshots disk path
  if files.isEmpty then .error ⟨"No snapshots found under " ++ path, []⟩
  let r ← checkFiles disk c files
  return { output := Output.report format r, status := if r.hasErrors then 1 else 0 }

/-- Say which zones paths are in. -/
def classify (o : Overrides) (paths : List String) : Except Failure Outcome := do
  let (config, _) ← Lookup.load disk env o
  let policy ← Lookup.policy config
  let classifier : Classifier := ⟨policy, config.options.pathMode, disk.real⟩
  return .success (Output.zones classifier.zoneOfName paths)

/-- Print the policy and options in effect. -/
def showPolicy (o : Overrides) : Except Failure Outcome := do
  let (config, source) ← Lookup.load disk env o
  let policy ← Lookup.policy config
  return .success (Output.policy source config.options policy)

/-- What is printed after a configuration file has been written. -/
def initNotice : String :=
  Output.lines [
    "Created " ++ Template.path,
    "",
    "Next steps:",
    "  1. Edit " ++ Template.path ++ " to extend the policy",
    "  2. Run: chrome-style show-policy"]

/-- Write a configuration file, over an existing one only by force. -/
def init (force : Bool) : Except Failure Outcome :=
  if disk.leads Template.path && !force then
    .error ⟨"Configuration file already exists at " ++ Template.path ++
      ". Use --force to overwrite.", []⟩
  else
    match disk.refusal Template.path with
    | some e => .error ⟨e.message, []⟩
    | none => .ok { output := initNotice, written := some (Template.path, Template.text) }

/-- Do what a command asks for. -/
def perform (o : Overrides) : Action → Except Failure Outcome
  | .check path format => check disk env o path format
  | .classify paths => classify disk env o paths
  | .showPolicy => showPolicy disk env o
  | .init force => init disk force

/-- The name and version of the program. -/
def versionLine : String :=
  "chrome-style 0.3.0"

/-- How the program is used. The wording is a stand-in for a text that is put together from the
description of the command line; no more is meant by it than that some text is printed. -/
def usage : String :=
  Output.lines [
    "Usage: chrome-style [OPTIONS] <COMMAND>",
    "",
    "Commands:",
    "  check [-f text|json|compact] <PATH>  Check snapshots",
    "  classify <PATHS>...                  Classify file paths into zones",
    "  show-policy                          Print the effective policy and options",
    "  init [--force]                       Write a configuration file",
    "",
    "Options:",
    "  -v, --verbose             Say more while working",
    "  -c, --config <CONFIG>     Path to the configuration file",
    "      --no-realpath         Skip file system path resolution",
    "      --warnings-as-errors  Report findings as errors",
    "  -h, --help                Print this text",
    "  -V, --version             Print the version"]

/-- Do what a command line asks for. -/
def run (args : List String) : Outcome :=
  match Invocation.ofArguments? args with
  | none => .misuse
  | some .version => .success (Output.lines [versionLine])
  | some .help => .success usage
  | some (.run o action) => .ofExcept (perform disk env o action)

end Command

end StyleZones

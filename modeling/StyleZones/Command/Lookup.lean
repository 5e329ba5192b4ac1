import StyleZones.Command.Arguments
import StyleZones.Command.Failure
import StyleZones.Config.Toml
import StyleZones.Path.Components

/-!
# Finding the configuration

Exactly one source decides: the file given on the command line, whether or not it exists; else the
first of two project files in the working directory; else the global file; else nothing but the
defaults. Only regular files count, links followed. A file that is chosen and cannot be used is a
failure, and no other source is tried.

`Lookup.load` is the configuration with what the command line overrides.
-/

set_option autoImplicit false

namespace StyleZones

/-- What the program is told by its environment. -/
structure Environment where
  /-- The directory of the global configuration, if one is named. -/
  configDirectory : Option String := none
  /-- The user's home directory. -/
  home : Option String := none
  deriving DecidableEq, Repr

/-- Where a configuration comes from. -/
inductive ConfigSource where
  /-- A file given on the command line. -/
  | explicit (path : String)
  /-- A file in the working directory. -/
  | project (path : String)
  /-- The file in the global directory. -/
  | global (path : String)
  /-- No file. -/
  | builtIn
  deriving DecidableEq, Repr

namespace ConfigSource

/-- The file of a source. -/
def path? : ConfigSource → Option String
  | .explicit path => some path
  | .project path => some path
  | .global path => some path
  | .builtIn => none

/-- A source in words. -/
def text : ConfigSource → String
  | .explicit path => path ++ " (--config)"
  | .project path => path ++ " (project)"
  | .global path => path ++ " (global)"
  | .builtIn => "built-in defaults"

end ConfigSource

namespace Lookup

/-- The project files, in the order in which they are looked for. -/
def projectFiles : List String :=
  [Path.join "." "chrome-style.toml", Path.join "." ".chrome-style.toml"]

/-- The global file: in the directory that the environment names, else in one below the home
directory. -/
def globalFile? (env : Environment) : Option String :=
  let directory := env.configDirectory.or (env.home.map fun h => Path.join h ".chrome-style")
  directory.map fun d => Path.join d "config.toml"

/-- The source that decides. -/
def source (disk : Disk) (env : Environment) (explicit : Option String) : ConfigSource :=
  match explicit with
  | some path => .explicit path
  | none =>
      match projectFiles.find? disk.isFile with
      | some path => .project path
      | none =>
          match (globalFile? env).filter disk.isFile with
          | some path => .global path
          | none => .builtIn

/-- The configuration of a source. -/
def read (disk : Disk) (source : ConfigSource) : Except Failure Config :=
  match source.path? with
  | none => .ok {}
  | some path =>
      match Config.ofFile disk path with
      | .ok c => .ok c
      | .error e => .error ⟨"Failed to load config: " ++ path, e.message :: e.causes⟩

/-- A configuration with what the command line overrides. Switches can only turn options on. -/
def override (o : Overrides) (c : Config) : Config :=
  { c with options := { c.options with
      noRealpath := c.options.noRealpath || o.noRealpath
      warningsAsErrors := c.options.warningsAsErrors || o.warningsAsErrors } }

/-- The configuration in effect, and its source. -/
def load (disk : Disk) (env : Environment) (o : Overrides) :
    Except Failure (Config × ConfigSource) := do
  let source := source disk env o.config
  return (override o (← read disk source), source)

/-- The policy of a configuration. -/
def policy (c : Config) : Except Failure Policy :=
  match c.buildPolicy with
  | .ok p => .ok p
  | .error e => .error ⟨"Invalid policy", e.message :: e.causes⟩

end Lookup

end StyleZones

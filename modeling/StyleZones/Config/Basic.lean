import StyleZones.Check.Basic
import StyleZones.Disk.Basic
import StyleZones.Policy.Chromium

/-!
# Configurations

What a configuration file says: options, and entries that are added to the built-in policy or stand
in its place. `Config.buildPolicy` is the policy that comes of it.
-/

set_option autoImplicit false

namespace StyleZones

/-- The part of a configuration that is about the policy. -/
structure PolicyConfig where
  /-- Start from the built-in lists. -/
  inheritDefaults : Bool := true
  /-- The entries to add. -/
  entries : Entries := {}
  deriving DecidableEq

/-- A configuration. -/
structure Config where
  /-- The options. -/
  options : Options := {}
  /-- The part about the policy. -/
  policy : PolicyConfig := {}
  deriving DecidableEq

/-- Why there is no configuration, or no policy in it. -/
inductive ConfigError where
  /-- The file cannot be read. -/
  | unreadable (path : String) (error : DiskError)
  /-- The text is not a configuration. -/
  | malformed
  /-- An entry for the policy is malformed. -/
  | invalidPolicy (error : PolicyError)
  deriving DecidableEq, Repr

namespace ConfigError

/-- What is said about a failure. -/
def message : ConfigError → String
  | .unreadable path error => "Failed to read config file " ++ path ++ ": " ++ error.message
  | .malformed => "Failed to parse config: the text is not a configuration"
  | .invalidPolicy error => "Invalid policy: " ++ error.message

/-- What lies beneath a failure. -/
def causes : ConfigError → List String
  | .unreadable _ error => [error.message]
  | .malformed => []
  | .invalidPolicy error => [error.message]

end ConfigError

namespace Config

/-- The policy that a configuration starts from. -/
def basePolicy (c : Config) : Policy :=
  if c.policy.inheritDefaults then .chromium else .empty

/-- The policy of a configuration. -/
def buildPolicy (c : Config) : Except ConfigError Policy :=
  match c.basePolicy.extend c.policy.entries with
  | .ok p => .ok p
  | .error e => .error (.invalidPolicy e)

end Config

end StyleZones

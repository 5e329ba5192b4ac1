import StyleZones.Check.Checker
import StyleZones.Config.Basic

/-!
# Putting a checker together

A checker is put together in steps, which may come in any order and number. A configuration sets all
options and offers a policy; a policy given by itself is preferred to any that a configuration
offers; options can be set together or one by one, and the last step that sets one decides; checks
are added in order.

`Recipe.build` turns the steps into a checker. It can fail only on the policy of the last
configuration, and only if that policy is needed.
-/

set_option autoImplicit false

namespace StyleZones

/-- One step in putting a checker together. -/
inductive RecipeStep where
  /-- Take options and policy from a configuration. -/
  | config (config : Config)
  /-- Use this policy. -/
  | policy (policy : Policy)
  /-- Use these options. -/
  | options (options : Options)
  /-- Take file names as the compiler reports them, or not. -/
  | noRealpath (value : Bool)
  /-- Report findings as errors, or not. -/
  | warningsAsErrors (value : Bool)
  /-- Add a check. -/
  | check (check : Check)

/-- A checker in the making. -/
structure Recipe where
  /-- The policy given by itself. -/
  policy : Option Policy := none
  /-- The last configuration. -/
  config : Option Config := none
  /-- The options so far. -/
  options : Options := {}
  /-- The checks so far. -/
  checks : List Check := []

/-- Why a checker cannot be put together. -/
inductive BuildError where
  /-- The configuration has no policy. -/
  | config (error : ConfigError)
  deriving DecidableEq, Repr

namespace BuildError

/-- What is said about a failure. -/
def message : BuildError → String
  | .config error => "Configuration error: " ++ error.message

/-- What lies beneath a failure. -/
def causes : BuildError → List String
  | .config error => error.message :: error.causes

end BuildError

namespace Recipe

/-- The recipe after a step. -/
def apply (r : Recipe) : RecipeStep → Recipe
  | .config config => { r with config := some config, options := config.options }
  | .policy policy => { r with policy := some policy }
  | .options options => { r with options := options }
  | .noRealpath value => { r with options := { r.options with noRealpath := value } }
  | .warningsAsErrors value => { r with options := { r.options with warningsAsErrors := value } }
  | .check check => { r with checks := r.checks ++ [check] }

/-- The policy of the checker: the one given by itself, else the one of the configuration, else the
built-in one. -/
def choosePolicy (r : Recipe) : Except BuildError Policy :=
  match r.policy, r.config with
  | some policy, _ => .ok policy
  | none, some config =>
      match config.buildPolicy with
      | .ok policy => .ok policy
      | .error e => .error (.config e)
  | none, none => .ok .chromium

/-- The checker. -/
def build (r : Recipe) : Except BuildError Checker := do
  return ⟨← r.choosePolicy, r.options, r.checks⟩

/-- The recipe of a list of steps. -/
def ofSteps (steps : List RecipeStep) : Recipe :=
  steps.foldl apply {}

end Recipe

end StyleZones

import Mathlib.Data.List.Induction
import StyleZones.Check.Recipe
import StyleZones.Proofs.Loops
import StyleZones.Proofs.Policy.Extension

/-!
# What a checker is made of

A checker is put together in steps of several kinds, and a step of one kind can take back what a
step of another kind has set. A configuration sets all options and offers a policy, some steps set
all options, and some set one. For each thing that can be set there is a function from a step to the
value that the step gives it, and one rule: the last step that gives a value decides (`lastGiven`).
Two things differ. A policy given by itself is preferred to any configuration, and checks are
collected.

* `foldl_eq_lastGiven` is the rule for a whole run, from what one step does.
* `Recipe.Yields` says what the checker is made of that comes of some steps, and
  `Recipe.build_eq_ok_iff` and `Recipe.build_eq_error_iff` say when there is one.
* `Recipe.build_superseded`: a configuration whose policy is not needed counts for its options only.
-/

set_option autoImplicit false

namespace StyleZones

/-! ## The last step that gives a value -/

section Steps

variable {ρ σ α : Type} (value : σ → Option α)

/-- The value that the last of the steps gives of those that give one. -/
def lastGiven (steps : List σ) : Option α :=
  steps.reverse.findSome? value

/-- The last of the steps that give a value gives `a`. -/
def Decides (steps : List σ) (a : α) : Prop :=
  ∃ before step after, steps = before ++ step :: after ∧ value step = some a ∧
    ∀ s ∈ after, value s = none

/-- No step gives a value. -/
def Silent (steps : List σ) : Prop :=
  ∀ s ∈ steps, value s = none

theorem lastGiven_append (steps more : List σ) :
    lastGiven value (steps ++ more) = (lastGiven value more).or (lastGiven value steps) := by
  rw [lastGiven, List.reverse_append, List.findSome?_append]
  rfl

theorem lastGiven_singleton (step : σ) : lastGiven value [step] = value step :=
  List.findSome?_singleton

/-- A step is asked after those that follow it and before those in front of it. -/
theorem lastGiven_append_cons (before : List σ) (step : σ) (after : List σ) :
    lastGiven value (before ++ step :: after) =
      (lastGiven value after).or ((value step).or (lastGiven value before)) := by
  rw [lastGiven_append, ← List.singleton_append, lastGiven_append, lastGiven_singleton,
    Option.or_assoc]

theorem lastGiven_eq_none_iff (steps : List σ) :
    lastGiven value steps = none ↔ Silent value steps := by
  rw [lastGiven, List.findSome?_eq_none_iff]
  simp only [List.mem_reverse, Silent]

theorem exists_lastGiven_eq {steps : List σ} (h : ∃ s ∈ steps, (value s).isSome = true) :
    ∃ a, lastGiven value steps = some a := by
  obtain ⟨s, hs, hsome⟩ := h
  rw [← Option.isSome_iff_exists, Option.isSome_iff_ne_none]
  intro hnone
  rw [(lastGiven_eq_none_iff value steps).1 hnone s hs] at hsome
  cases hsome

theorem lastGiven_eq_some_iff (steps : List σ) (a : α) :
    lastGiven value steps = some a ↔ Decides value steps a := by
  rw [lastGiven, List.findSome?_eq_some_iff]
  constructor
  · rintro ⟨after, step, before, hsteps, hstep, hafter⟩
    refine ⟨before.reverse, step, after.reverse, ?_, hstep, ?_⟩
    · rw [← List.reverse_reverse steps, hsteps]
      simp
    · intro s hs
      exact hafter s (List.mem_reverse.1 hs)
  · rintro ⟨before, step, after, rfl, hstep, hafter⟩
    refine ⟨after.reverse, step, before.reverse, by simp, hstep, ?_⟩
    intro s hs
    exact hafter s (List.mem_reverse.1 hs)

/-- If each step keeps something as it is or replaces it by the value that the step gives, the last
step that gives a value decides about it. -/
theorem foldl_eq_lastGiven (apply : ρ → σ → ρ) (get : ρ → Option α)
    (hstep : ∀ r s, get (apply r s) = (value s).or (get r)) (r : ρ) (steps : List σ) :
    get (steps.foldl apply r) = (lastGiven value steps).or (get r) := by
  induction steps using List.reverseRecOn with
  | nil => rfl
  | append_singleton steps step ih =>
    rw [List.foldl_append, List.foldl_cons, List.foldl_nil, hstep, ih, lastGiven_append,
      lastGiven_singleton, Option.or_assoc]

end Steps

/-! ## The policy of a configuration -/

theorem Config.buildPolicy_eq_mapError (c : Config) :
    c.buildPolicy = (c.basePolicy.extend c.policy.entries).mapError .invalidPolicy := by
  rw [buildPolicy]
  cases c.basePolicy.extend c.policy.entries <;> rfl

/-- A configuration has no policy exactly if one of its entries cannot stand in one, and the first
of these is at fault. -/
theorem Config.buildPolicy_eq_error_iff (c : Config) (e : ConfigError) :
    c.buildPolicy = .error e ↔
      ∃ before x after, c.policy.entries.listed = before ++ x :: after ∧ (∀ y ∈ before, y.Valid) ∧
        ¬ x.Valid ∧ e = .invalidPolicy x.error := by
  rw [buildPolicy_eq_mapError, mapError_eq_error_iff]
  simp only [Policy.extend_eq_error_iff]
  constructor
  · rintro ⟨fault, ⟨before, x, after, hlisted, hbefore, hx, rfl⟩, rfl⟩
    exact ⟨before, x, after, hlisted, hbefore, hx, rfl⟩
  · rintro ⟨before, x, after, hlisted, hbefore, hx, rfl⟩
    exact ⟨x.error, ⟨before, x, after, hlisted, hbefore, hx, rfl⟩, rfl⟩

/-! ## What steps give -/

namespace RecipeStep

/-- The policy that a step gives by itself. -/
def policy? : RecipeStep → Option Policy
  | .policy p => some p
  | _ => none

/-- The configuration that a step gives. -/
def config? : RecipeStep → Option Config
  | .config c => some c
  | _ => none

/-- The options that a step gives, all together. -/
def options? : RecipeStep → Option Options
  | .config c => some c.options
  | .options o => some o
  | _ => none

/-- Whether a step wants file names taken as the compiler reports them. -/
def noRealpath? : RecipeStep → Option Bool
  | .noRealpath value => some value
  | step => step.options?.map Options.noRealpath

/-- Whether a step wants findings reported as errors. -/
def warningsAsErrors? : RecipeStep → Option Bool
  | .warningsAsErrors value => some value
  | step => step.options?.map Options.warningsAsErrors

/-- How much of the namespaces a step wants shown. -/
def namespaceMode? (step : RecipeStep) : Option NamespaceMode :=
  step.options?.map Options.namespaceMode

/-- The check that a step adds. -/
def check? : RecipeStep → Option Check
  | .check c => some c
  | _ => none

end RecipeStep

namespace Recipe

open RecipeStep (policy? config? noRealpath? warningsAsErrors? namespaceMode? check?)

/-- What comes of steps: the checker has the checks that are added, in order, the policy that is
preferred, and each option as the last step has it that sets it. -/
structure Yields (steps : List RecipeStep) (c : Checker) : Prop where
  /-- The checks are those that are added. -/
  checks : c.checks = steps.filterMap check?
  /-- The policy is the last that is given by itself. If there is none, it is that of the last
  configuration, and if there is no configuration either, it is the built-in one. -/
  policy : Decides policy? steps c.policy ∨ Silent policy? steps ∧
    ((∃ config, Decides config? steps config ∧ config.buildPolicy = .ok c.policy) ∨
      Silent config? steps ∧ c.policy = .chromium)
  /-- How file names are taken. -/
  noRealpath : Decides noRealpath? steps c.options.noRealpath ∨
    Silent noRealpath? steps ∧ c.options.noRealpath = false
  /-- How findings are reported. -/
  warningsAsErrors : Decides warningsAsErrors? steps c.options.warningsAsErrors ∨
    Silent warningsAsErrors? steps ∧ c.options.warningsAsErrors = false
  /-- How much of the namespaces is shown. -/
  namespaceMode : Decides namespaceMode? steps c.options.namespaceMode ∨
    Silent namespaceMode? steps ∧ c.options.namespaceMode = .outermost

/-! ## The recipe of steps -/

variable (steps : List RecipeStep)

theorem policy_ofSteps : (ofSteps steps).policy = lastGiven policy? steps := by
  have h := foldl_eq_lastGiven policy? apply Recipe.policy (fun r s => by cases s <;> rfl) {} steps
  rw [Option.or_none] at h
  exact h

theorem config_ofSteps : (ofSteps steps).config = lastGiven config? steps := by
  have h := foldl_eq_lastGiven config? apply Recipe.config (fun r s => by cases s <;> rfl) {} steps
  rw [Option.or_none] at h
  exact h

/-- An option is as the last step has it that sets it, and as at the start if no step does. -/
theorem option_ofSteps {β : Type} (option : Options → β) (value : RecipeStep → Option β)
    (hstep : ∀ r s, some (option (apply r s).options) = (value s).or (some (option r.options)))
    (b : β) :
    option (ofSteps steps).options = b ↔
      Decides value steps b ∨ Silent value steps ∧ b = option {} := by
  have h := foldl_eq_lastGiven value apply (fun r => some (option r.options)) hstep {} steps
  rw [← Option.some_inj, ← lastGiven_eq_some_iff, ← lastGiven_eq_none_iff]
  show some (option (steps.foldl apply {}).options) = some b ↔ _
  rw [h]
  cases lastGiven value steps with
  | none => simp [eq_comm]
  | some a => simp

theorem checks_ofSteps : (ofSteps steps).checks = steps.filterMap check? := by
  rw [ofSteps]
  induction steps using List.reverseRecOn with
  | nil => rfl
  | append_singleton steps step ih =>
    rw [List.foldl_append, List.foldl_cons, List.foldl_nil, List.filterMap_append, ← ih]
    cases step with
    | check check => rfl
    | _ => simp [apply, check?]

/-- The options of the recipe are those of the checker that comes of the steps. -/
theorem options_ofSteps_iff (o : Options) :
    (ofSteps steps).options = o ↔
      (Decides noRealpath? steps o.noRealpath ∨ Silent noRealpath? steps ∧ o.noRealpath = false) ∧
      (Decides warningsAsErrors? steps o.warningsAsErrors ∨
        Silent warningsAsErrors? steps ∧ o.warningsAsErrors = false) ∧
      (Decides namespaceMode? steps o.namespaceMode ∨
        Silent namespaceMode? steps ∧ o.namespaceMode = .outermost) := by
  have hpath := option_ofSteps steps Options.noRealpath noRealpath?
    (fun r s => by cases s <;> rfl) o.noRealpath
  have herrors := option_ofSteps steps Options.warningsAsErrors warningsAsErrors?
    (fun r s => by cases s <;> rfl) o.warningsAsErrors
  have hmode := option_ofSteps steps Options.namespaceMode namespaceMode?
    (fun r s => by cases s <;> rfl) o.namespaceMode
  rw [← hpath, ← herrors, ← hmode]
  cases o
  cases (ofSteps steps).options
  simp

/-! ## Building -/

variable {steps}

/-- There is a policy to choose: one given by itself, or that of the last configuration, or the
built-in one. -/
theorem choosePolicy_eq_ok_iff (p : Policy) :
    (ofSteps steps).choosePolicy = .ok p ↔
      Decides policy? steps p ∨ Silent policy? steps ∧
        ((∃ config, Decides config? steps config ∧ config.buildPolicy = .ok p) ∨
          Silent config? steps ∧ p = .chromium) := by
  rw [choosePolicy, policy_ofSteps, config_ofSteps]
  simp only [← lastGiven_eq_some_iff, ← lastGiven_eq_none_iff]
  cases lastGiven policy? steps with
  | some q => simp
  | none =>
    cases lastGiven config? steps with
    | none => simp [eq_comm]
    | some config => cases h : config.buildPolicy <;> simp [h]

/-- There is none only if the last configuration is needed, and has no policy itself. -/
theorem choosePolicy_eq_error_iff (e : BuildError) :
    (ofSteps steps).choosePolicy = .error e ↔
      Silent policy? steps ∧ ∃ config, Decides config? steps config ∧
        ∃ fault, config.buildPolicy = .error fault ∧ e = .config fault := by
  rw [choosePolicy, policy_ofSteps, config_ofSteps]
  simp only [← lastGiven_eq_some_iff, ← lastGiven_eq_none_iff]
  cases lastGiven policy? steps with
  | some q => simp
  | none =>
    cases lastGiven config? steps with
    | none => simp
    | some config => cases h : config.buildPolicy <;> simp [h, eq_comm]

theorem build_eq_ok_iff (c : Checker) : (ofSteps steps).build = .ok c ↔ Yields steps c := by
  have hbuild : (ofSteps steps).build = .ok c ↔
      (ofSteps steps).choosePolicy = .ok c.policy ∧ (ofSteps steps).options = c.options ∧
        (ofSteps steps).checks = c.checks := by
    rw [build]
    cases (ofSteps steps).choosePolicy with
    | error e => simp [bind, Except.bind]
    | ok p => cases c; simp [bind, Except.bind, pure, Except.pure]
  rw [hbuild, choosePolicy_eq_ok_iff, options_ofSteps_iff, checks_ofSteps]
  constructor
  · rintro ⟨hpolicy, ⟨hpath, herrors, hmode⟩, hchecks⟩
    exact ⟨hchecks.symm, hpolicy, hpath, herrors, hmode⟩
  · rintro ⟨hchecks, hpolicy, hpath, herrors, hmode⟩
    exact ⟨hpolicy, ⟨hpath, herrors, hmode⟩, hchecks.symm⟩

theorem build_eq_error_iff (e : BuildError) :
    (ofSteps steps).build = .error e ↔
      Silent policy? steps ∧ ∃ config, Decides config? steps config ∧
        ∃ before x after, config.policy.entries.listed = before ++ x :: after ∧
          (∀ y ∈ before, y.Valid) ∧ ¬ x.Valid ∧
          e = .config (.invalidPolicy x.error) := by
  have hbuild : (ofSteps steps).build = .error e ↔ (ofSteps steps).choosePolicy = .error e := by
    rw [build]
    cases (ofSteps steps).choosePolicy <;> simp [bind, Except.bind, pure, Except.pure]
  rw [hbuild, choosePolicy_eq_error_iff]
  simp only [Config.buildPolicy_eq_error_iff]
  constructor
  · rintro ⟨hsilent, config, hconfig, fault, ⟨before, x, after, hlisted, hbefore, hx, rfl⟩, rfl⟩
    exact ⟨hsilent, config, hconfig, before, x, after, hlisted, hbefore, hx, rfl⟩
  · rintro ⟨hsilent, config, hconfig, before, x, after, hlisted, hbefore, hx, rfl⟩
    exact ⟨hsilent, config, hconfig, _, ⟨before, x, after, hlisted, hbefore, hx, rfl⟩, rfl⟩

/-! ## Configurations that are not needed -/

/-- What is built depends on the policy that is chosen, on the options and on the checks. -/
theorem build_congr {r r' : Recipe} (hpolicy : r.choosePolicy = r'.choosePolicy)
    (hoptions : r.options = r'.options) (hchecks : r.checks = r'.checks) : r.build = r'.build := by
  rw [build, hpolicy, hoptions, hchecks, build]

/-- What steps do to the options depends on nothing but the options. -/
theorem options_foldl_congr (steps : List RecipeStep) {r r' : Recipe} (h : r.options = r'.options) :
    (steps.foldl apply r).options = (steps.foldl apply r').options := by
  induction steps generalizing r r' with
  | nil => exact h
  | cons step steps ih =>
    apply ih
    cases step with
    | noRealpath value => simp only [apply, h]
    | warningsAsErrors value => simp only [apply, h]
    | config config => rfl
    | options options => rfl
    | policy policy => exact h
    | check check => exact h

/-- A configuration that is replaced by a later one, or stands beside a policy given by itself,
counts for its options only. -/
theorem build_superseded {before after : List RecipeStep} (config : Config)
    (h : (∃ s ∈ after, s.config?.isSome = true) ∨ ∃ s ∈ before ++ after, s.policy?.isSome = true) :
    (ofSteps (before ++ .config config :: after)).build =
      (ofSteps (before ++ .options config.options :: after)).build := by
  apply build_congr
  · rw [choosePolicy, choosePolicy, policy_ofSteps, policy_ofSteps, config_ofSteps, config_ofSteps]
    simp only [lastGiven_append_cons, policy?, config?, Option.none_or]
    rcases h with hreplaced | hgiven
    · -- The later configuration is looked at, whatever the earlier one is.
      obtain ⟨c, hc⟩ := exists_lastGiven_eq _ hreplaced
      rw [hc, Option.some_or, Option.some_or]
    · obtain ⟨p, hp⟩ := exists_lastGiven_eq _ hgiven
      rw [← lastGiven_append, hp]
  · rw [ofSteps, ofSteps, List.foldl_append, List.foldl_append]
    exact options_foldl_congr after rfl
  · rw [checks_ofSteps, checks_ofSteps, List.filterMap_append, List.filterMap_append]
    rfl

/-- Whatever the steps are and in whatever order, what comes of them is the checker that they yield:
its checks are those that are added, its policy is the preferred one, and each option is as the last
step has it that sets it. There is no checker exactly if no policy is given by itself and the last
configuration has an entry that cannot stand in a policy, and the first of these is reported. A
configuration that is replaced, or stands beside a policy given by itself, counts for its options
only. -/
theorem build_decided_by_last_steps (steps : List RecipeStep) :
    (∀ c, (ofSteps steps).build = .ok c ↔ Yields steps c) ∧
    (∀ e, (ofSteps steps).build = .error e ↔
      Silent policy? steps ∧ ∃ config, Decides config? steps config ∧
        ∃ before x after, config.policy.entries.listed = before ++ x :: after ∧
          (∀ y ∈ before, y.Valid) ∧ ¬ x.Valid ∧
          e = .config (.invalidPolicy x.error)) ∧
    ∀ before config after, steps = before ++ .config config :: after →
      ((∃ s ∈ after, s.config?.isSome = true) ∨ ∃ s ∈ before ++ after, s.policy?.isSome = true) →
      (ofSteps steps).build = (ofSteps (before ++ .options config.options :: after)).build := by
  refine ⟨build_eq_ok_iff, build_eq_error_iff, ?_⟩
  rintro before config after rfl h
  exact build_superseded config h

/-- A configuration with a malformed directory marker. -/
def markedBadly : Config where
  options := { warningsAsErrors := true }
  policy := { entries := { directories := ["gen"] } }

/-- The configuration with the malformed marker is replaced by the default one, and a policy is
given before both. The option that it sets is taken back by the second configuration, and set again.
By itself it is at fault. -/
theorem build_decided_by_last_steps_mixed :
    Yields [.policy .empty, .config markedBadly, .noRealpath true, .config {},
      .warningsAsErrors true]
        ⟨.empty, { warningsAsErrors := true }, []⟩ ∧
      (ofSteps [.policy .empty, .config markedBadly, .noRealpath true, .config {},
        .warningsAsErrors true]).build =
        (ofSteps [.policy .empty, .options { warningsAsErrors := true }, .noRealpath true,
          .config {}, .warningsAsErrors true]).build ∧
      (ofSteps [.noRealpath true, .config markedBadly]).build =
        .error (.config (.invalidPolicy (.unboundedDirectory "gen"))) := by
  obtain ⟨hyields, -, hsuperseded⟩ := build_decided_by_last_steps
    [.policy .empty, .config markedBadly, .noRealpath true, .config {}, .warningsAsErrors true]
  obtain ⟨-, herror, -⟩ := build_decided_by_last_steps [.noRealpath true, .config markedBadly]
  refine ⟨(hyields _).1 rfl, ?_, ?_⟩
  · exact hsuperseded [.policy .empty] markedBadly _ rfl (.inl ⟨.config {}, by simp, rfl⟩)
  · refine (herror _).2 ⟨?_, markedBadly, ⟨[.noRealpath true], _, [], rfl, rfl, by simp⟩, ?_⟩
    · intro s hs
      simp only [List.mem_cons, List.not_mem_nil, or_false] at hs
      rcases hs with rfl | rfl <;> rfl
    · exact ⟨[], .directory "gen", [], rfl, by simp, by decide, rfl⟩

end Recipe

end StyleZones

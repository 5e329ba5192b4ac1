import StyleZones.Proofs.Command.Classify

/-!
# Which configuration is in effect

A configuration may be found at four places, and there are the defaults. The places have a rank
(`Lookup.Outranks`), and a source decides if it is there and no file stands where one would outrank
it (`Lookup.Selects`). On every disk this is one source, the one that is looked up
(`Lookup.selects_iff`).

What is loaded is the configuration that this source holds (`Lookup.Holds`) with two switches turned
on (`Lookup.Switched`), or else a failure that names its file. So it takes little for two disks to
load the same (`Lookup.AgreeOn`), and the commands know nothing of the environment and the switches
but what is loaded (`Command.perform_eq_of_load_eq`).
-/

set_option autoImplicit false

namespace StyleZones

namespace Lookup

/-! ## The source that decides -/

/-- The directory of the global file. -/
inductive GlobalDirectory (env : Environment) : String → Prop
  /-- The one that the environment names. -/
  | named {directory : String} : env.configDirectory = some directory →
      GlobalDirectory env directory
  /-- If it names none, one below the home directory. -/
  | belowHome {home : String} : env.configDirectory = none → env.home = some home →
      GlobalDirectory env (Path.join home ".chrome-style")

/-- The global file is called `config.toml`, in the one directory that the environment gives. -/
theorem globalFile?_eq_some_iff (env : Environment) (file : String) :
    globalFile? env = some file ↔
      ∃ directory, GlobalDirectory env directory ∧ Path.join directory "config.toml" = file := by
  have hdirectory : ∀ directory,
      env.configDirectory.or (env.home.map fun h => Path.join h ".chrome-style") =
        some directory ↔ GlobalDirectory env directory := by
    intro directory
    rw [Option.or_eq_some_iff, Option.map_eq_some_iff]
    constructor
    · rintro (hnamed | ⟨hnone, home, hhome, rfl⟩)
      · exact .named hnamed
      · exact .belowHome hnone hhome
    · rintro (hnamed | ⟨hnone, hhome⟩)
      · exact .inl hnamed
      · exact .inr ⟨hnone, _, hhome, rfl⟩
  simp only [globalFile?, Option.map_eq_some_iff, hdirectory]

/-- The source is there. A file that is given on the command line need not exist. -/
inductive Found (disk : Disk) (env : Environment) : Option String → ConfigSource → Prop
  | explicit (file : String) : Found disk env (some file) (.explicit file)
  | plain : disk.kind "./chrome-style.toml" = some .file →
      Found disk env none (.project "./chrome-style.toml")
  | hidden : disk.kind "./.chrome-style.toml" = some .file →
      Found disk env none (.project "./.chrome-style.toml")
  | global {directory : String} : GlobalDirectory env directory →
      disk.kind (Path.join directory "config.toml") = some .file →
      Found disk env none (.global (Path.join directory "config.toml"))
  | builtIn : Found disk env none .builtIn

/-- A file at this place is taken rather than the source. -/
inductive Outranks (env : Environment) : String → ConfigSource → Prop
  | plain_hidden : Outranks env "./chrome-style.toml" (.project "./.chrome-style.toml")
  | plain_global (file : String) : Outranks env "./chrome-style.toml" (.global file)
  | hidden_global (file : String) : Outranks env "./.chrome-style.toml" (.global file)
  | plain_builtIn : Outranks env "./chrome-style.toml" .builtIn
  | hidden_builtIn : Outranks env "./.chrome-style.toml" .builtIn
  | global_builtIn {directory : String} : GlobalDirectory env directory →
      Outranks env (Path.join directory "config.toml") .builtIn

/-- No file is taken rather than the first project file. -/
theorem not_outranks_plain {env : Environment} {file : String} :
    ¬ Outranks env file (.project "./chrome-style.toml") := by
  -- The two project files differ in their texts only, which a case split on the rank cannot see.
  generalize hs : ConfigSource.project "./chrome-style.toml" = s
  intro h
  cases h with
  | plain_hidden => exact absurd (ConfigSource.project.inj hs) (by decide)
  | _ => cases hs

/-- The source decides: it is there, and no regular file outranks it. -/
structure Selects (disk : Disk) (env : Environment) (explicit : Option String) (s : ConfigSource) :
    Prop where
  found : Found disk env explicit s
  first : ∀ file, Outranks env file s → disk.kind file ≠ some .file

variable {disk disk' : Disk} {env : Environment} {explicit : Option String} {s : ConfigSource}

theorem projectFiles_eq : projectFiles = ["./chrome-style.toml", "./.chrome-style.toml"] := by
  decide +kernel

/-- The first project file that is there. -/
theorem find?_projectFiles (disk : Disk) :
    projectFiles.find? disk.isFile =
      if disk.kind "./chrome-style.toml" = some .file then some "./chrome-style.toml"
      else if disk.kind "./.chrome-style.toml" = some .file then some "./.chrome-style.toml"
      else none := by
  rw [projectFiles_eq, List.find?_cons, List.find?_cons, List.find?_nil, Disk.isFile, Disk.isFile]
  split_ifs with hplain hhidden
  · rw [beq_iff_eq.2 hplain]
  · rw [beq_eq_false_iff_ne.2 hplain, beq_iff_eq.2 hhidden]
  · rw [beq_eq_false_iff_ne.2 hplain, beq_eq_false_iff_ne.2 hhidden]

/-- The global file counts if it is a file on the disk. -/
theorem filter_globalFile? (disk : Disk) {directory : String} (h : GlobalDirectory env directory) :
    (globalFile? env).filter disk.isFile =
      if disk.kind (Path.join directory "config.toml") = some .file then
        some (Path.join directory "config.toml")
      else none := by
  rw [(globalFile?_eq_some_iff env _).2 ⟨directory, h, rfl⟩, Option.filter_some, Disk.isFile]
  simp only [beq_iff_eq]

/-- The source that is selected is the one that is looked up. -/
theorem Selects.eq_source (h : Selects disk env explicit s) : source disk env explicit = s := by
  obtain ⟨hfound, hfirst⟩ := h
  cases hfound with
  | explicit file => rfl
  | plain hplain => rw [source, find?_projectFiles, if_pos hplain]
  | hidden hhidden =>
    rw [source, find?_projectFiles, if_neg (hfirst _ .plain_hidden), if_pos hhidden]
  | global hdirectory hfile =>
    rw [source, find?_projectFiles, if_neg (hfirst _ (.plain_global _)),
      if_neg (hfirst _ (.hidden_global _)), filter_globalFile? disk hdirectory, if_pos hfile]
  | builtIn =>
    rw [source, find?_projectFiles, if_neg (hfirst _ .plain_builtIn),
      if_neg (hfirst _ .hidden_builtIn)]
    -- Either the environment leads to no global file, or it is not there.
    cases hglobal : globalFile? env with
    | none => rfl
    | some file =>
      obtain ⟨directory, hdirectory, rfl⟩ := (globalFile?_eq_some_iff env file).1 hglobal
      rw [← hglobal, filter_globalFile? disk hdirectory,
        if_neg (hfirst _ (.global_builtIn hdirectory))]

/-- Of the places that are looked at, one after another, either one has a file or none has. -/
theorem exists_selects (disk : Disk) (env : Environment) (explicit : Option String) :
    ∃ s, Selects disk env explicit s := by
  cases explicit with
  | some file => exact ⟨_, .explicit file, by rintro _ ⟨⟩⟩
  | none =>
    by_cases hplain : disk.kind "./chrome-style.toml" = some .file
    · exact ⟨_, .plain hplain, fun _ h => absurd h not_outranks_plain⟩
    by_cases hhidden : disk.kind "./.chrome-style.toml" = some .file
    · refine ⟨_, .hidden hhidden, ?_⟩
      rintro _ ⟨⟩
      exact hplain
    by_cases hglobal : ∃ directory, GlobalDirectory env directory ∧
        disk.kind (Path.join directory "config.toml") = some .file
    · obtain ⟨directory, hdirectory, hfile⟩ := hglobal
      refine ⟨_, .global hdirectory hfile, ?_⟩
      rintro _ (_ | _ | _)
      · exact hplain
      · exact hhidden
    · refine ⟨_, .builtIn, ?_⟩
      rintro _ (_ | _ | _ | _ | _ | hdirectory)
      · exact hplain
      · exact hhidden
      · exact fun hfile => hglobal ⟨_, hdirectory, hfile⟩

theorem selects_iff : Selects disk env explicit s ↔ s = source disk env explicit := by
  constructor
  · intro h
    exact h.eq_source.symm
  · rintro rfl
    obtain ⟨t, ht⟩ := exists_selects disk env explicit
    rw [ht.eq_source]
    exact ht

/-! ## What is loaded -/

/-- The configuration that a source holds. -/
inductive Holds (disk : Disk) : ConfigSource → Config → Prop
  /-- The file can be read, and its text is a configuration. -/
  | text {s : ConfigSource} {file text : String} {config : Config} :
      s.path? = some file → disk.read file = .ok text → Config.ofText text = .ok config →
        Holds disk s config
  | defaults : Holds disk .builtIn {}

/-- Two switches turn on what they stand for, and leave everything else as the configuration has
it. -/
structure Switched (o : Overrides) (config effective : Config) : Prop where
  noRealpath : effective.options.noRealpath = true ↔
    config.options.noRealpath = true ∨ o.noRealpath = true
  warningsAsErrors : effective.options.warningsAsErrors = true ↔
    config.options.warningsAsErrors = true ∨ o.warningsAsErrors = true
  namespaceMode : effective.options.namespaceMode = config.options.namespaceMode
  policy : effective.policy = config.policy

/-- Switches can turn options on, and leave the rest of a configuration as it is. -/
theorem switched_override (o : Overrides) (config : Config) :
    Switched o config (override o config) where
  noRealpath := Bool.or_eq_true _ _ ▸ Iff.rfl
  warningsAsErrors := Bool.or_eq_true _ _ ▸ Iff.rfl
  namespaceMode := rfl
  policy := rfl

/-- The failure to load a configuration names the file. -/
def FailsAt (file : String) (f : Failure) : Prop :=
  f.headline = "Failed to load config: " ++ file

/-- A source that holds a configuration is read as that configuration. -/
theorem read_of_holds {config : Config} (h : Holds disk s config) : read disk s = .ok config := by
  cases h with
  | text hfile htext hconfig => rw [read, hfile]; simp only [Config.ofFile, htext, hconfig]
  | defaults => rfl

/-- A source that holds no configuration has a file, and it is the file that is complained about. -/
theorem read_of_not_holds (h : ¬ ∃ config, Holds disk s config) :
    ∃ file f, s.path? = some file ∧ FailsAt file f ∧ read disk s = .error f := by
  cases hfile : s.path? with
  | none =>
    cases s with
    | builtIn => exact absurd ⟨_, Holds.defaults⟩ h
    | _ => cases hfile
  | some file =>
    cases hread : Config.ofFile disk file with
    | error e =>
      refine ⟨file, ⟨_, e.message :: e.causes⟩, rfl, rfl, ?_⟩
      rw [read, hfile]
      simp only [hread]
    | ok config =>
      rw [Config.ofFile] at hread
      cases htext : disk.read file with
      | error e => rw [htext] at hread; cases hread
      | ok text => rw [htext] at hread; exact absurd ⟨config, .text hfile htext hread⟩ h

/-- What is loaded is what the selected source holds, with the switches applied. -/
theorem load_of_holds {o : Overrides} {config : Config} (hs : Selects disk env o.config s)
    (h : Holds disk s config) :
    load disk env o = .ok (override o config, s) := by
  obtain rfl := hs.eq_source
  exact load_of_read (read_of_holds h)

/-- If the selected source holds no configuration, loading fails at its file. It does not go on to
the next source. -/
theorem load_of_not_holds {o : Overrides} (hs : Selects disk env o.config s)
    (h : ¬ ∃ config, Holds disk s config) :
    ∃ file f, s.path? = some file ∧ FailsAt file f ∧ load disk env o = .error f := by
  obtain ⟨file, f, hfile, hf, hread⟩ := read_of_not_holds h
  refine ⟨file, f, hfile, hf, ?_⟩
  rw [load, hs.eq_source, hread]
  rfl

/-! ## Two disks -/

/-- As far as a source goes the second disk is like the first: its file is a regular one on both or
on neither, and reading it gives the same; and no regular file outranks it. -/
structure AgreeOn (env : Environment) (s : ConfigSource) (disk disk' : Disk) : Prop where
  status : ∀ file, s.path? = some file →
    (disk'.kind file = some .file ↔ disk.kind file = some .file)
  content : ∀ file, s.path? = some file → disk'.read file = disk.read file
  first : ∀ file, Outranks env file s → disk'.kind file ≠ some .file

/-- A selection stands on every disk that agrees about the files that come before the source and
about the source itself. -/
theorem Selects.of_agreeOn (h : Selects disk env explicit s) (hagree : AgreeOn env s disk disk') :
    Selects disk' env explicit s := by
  refine ⟨?_, hagree.first⟩
  cases h.found with
  | explicit file => exact .explicit file
  | plain hfile => exact .plain ((hagree.status _ rfl).2 hfile)
  | hidden hfile => exact .hidden ((hagree.status _ rfl).2 hfile)
  | global hdirectory hfile => exact .global hdirectory ((hagree.status _ rfl).2 hfile)
  | builtIn => exact .builtIn

theorem read_of_agreeOn (hagree : AgreeOn env s disk disk') : read disk' s = read disk s := by
  rw [read, read]
  cases hfile : s.path? with
  | none => rfl
  | some file => simp only [Config.ofFile, hagree.content file hfile]

/-- What is loaded depends on no other files. -/
theorem load_of_agreeOn {o : Overrides} (h : Selects disk env o.config s)
    (hagree : AgreeOn env s disk disk') :
    load disk' env o = load disk env o := by
  rw [load, load, h.eq_source, (h.of_agreeOn hagree).eq_source, read_of_agreeOn hagree]

end Lookup

/-! ## What the commands make of it -/

namespace Command

/-- The action goes by a configuration. All do but the one that writes a first configuration
file. -/
def Configured (action : Action) : Prop :=
  ∀ force, action ≠ .init force

/-- To what an action asks beside its configuration, the second disk gives the answers of the
first. -/
def AgreeBeside (disk disk' : Disk) : Action → Prop
  | .check path _ =>
      disk'.real = disk.real ∧ snapshots disk' path = snapshots disk path ∧
        ∀ files, snapshots disk path = .ok files → ∀ file ∈ files, disk'.read file = disk.read file
  | .classify _ => disk'.real = disk.real
  | .showPolicy => True
  | .init _ =>
      disk'.leads Template.path = disk.leads Template.path ∧ disk'.refusal Template.path =
        disk.refusal Template.path

variable {disk disk' : Disk} {env env' : Environment} {o o' : Overrides} {action : Action}

theorem loadUnit_of_read_eq {file : String} (h : disk'.read file = disk.read file) :
    loadUnit disk' file = loadUnit disk file := by
  simp only [loadUnit, Snapshot.unitOfFile, h]

/-- A run over files depends on what is in them and on how the disk resolves file names. -/
theorem checkFiles_of_read_eq (c : Checker) {files : List String} (hreal : disk'.real = disk.real)
    (hread : ∀ file ∈ files, disk'.read file = disk.read file) :
    checkFiles disk' c files = checkFiles disk c files := by
  rw [checkFiles, checkFiles, hreal]
  -- Each turn of the loop reads one of the files, whatever the report so far.
  generalize Report.empty = r
  induction files generalizing r with
  | nil => rfl
  | cons file files ih =>
    rw [List.forall_mem_cons] at hread
    rw [List.foldlM_cons, List.foldlM_cons, loadUnit_of_read_eq hread.1]
    exact bind_congr fun r' => ih hread.2 r'

theorem check_eq_of_load_eq (h : Lookup.load disk' env' o' = Lookup.load disk env o) {path : String}
    {format : Format} (hsame : AgreeBeside disk disk' (.check path format)) :
    check disk' env' o' path format = check disk env o path format := by
  obtain ⟨hreal, hsnapshots, hread⟩ := hsame
  rw [check, check, h, hsnapshots]
  refine bind_congr fun loaded => bind_congr fun c => bind_congr_of_eq_ok fun files hfiles => ?_
  -- What is left to compare is the loop over the files that were selected on both disks.
  rw [checkFiles_of_read_eq c hreal (hread files hfiles)]

/-- The commands learn about the environment and the switches, and about the files that may hold a
configuration, through what is loaded only. -/
theorem perform_eq_of_load_eq (h : Lookup.load disk' env' o' = Lookup.load disk env o)
    (hsame : AgreeBeside disk disk' action) :
    perform disk' env' o' action = perform disk env o action := by
  cases action with
  | check path format => exact check_eq_of_load_eq h hsame
  | classify names =>
    rw [perform, perform, classify, classify, h, show disk'.real = disk.real from hsame]
  | showPolicy => rw [perform, perform, showPolicy, showPolicy, h]
  | init force => rw [perform, perform, init, init, hsame.1, hsame.2]

theorem perform_of_load_error {f : Failure} (h : Lookup.load disk env o = .error f)
    (haction : Configured action) :
    perform disk env o action = .error f := by
  cases action with
  | check path format => rw [perform, check, h]; rfl
  | classify names => rw [perform, classify, h]; rfl
  | showPolicy => rw [perform, showPolicy, h]; rfl
  | init force => exact absurd rfl (haction force)

/-- A command that goes by a configuration ends with the failure to load it. -/
theorem run_of_load_error {f : Failure} (h : Lookup.load disk env o = .error f)
    (haction : Configured action) {args : List String}
    (hargs : Invocation.ofArguments? args = some (.run o action)) :
    run disk env args = .ofFailure f := by
  rw [run, hargs]
  simp only [perform_of_load_error h haction, Outcome.ofExcept]

variable (disk env o)

/-- What the commands print under a configuration, its policy and its source. -/
structure GoesBy (config : Config) (policy : Policy) (s : ConfigSource) : Prop where
  showPolicy : showPolicy disk env o = .ok (.success (Output.policy s config.options policy))
  classify : ∀ names, classify disk env o names =
    .ok (.success
      (Output.zones (Classifier.zoneOfName ⟨policy, config.options.pathMode, disk.real⟩) names))
  check : ∀ path format outcome, check disk env o path format = .ok outcome ↔
    ∃ files units, StableSort Path.key (selected disk path) files ∧ files ≠ [] ∧
      List.Forall₂ (Snapshot.HeldIn disk) files units ∧
      outcome =
        { output := Output.report format
            ((ZoneReport.checker policy config.options [none]).merged disk.real units)
          status :=
            if ((ZoneReport.checker policy config.options [none]).merged disk.real units).hasErrors
            then 1 else 0 }

variable {disk env o}

/-- With a configuration and a policy, each command prints what they say. -/
theorem goesBy_of_read {config : Config} {policy : Policy}
    (hconfig : Lookup.read disk (Lookup.source disk env o.config) = .ok config)
    (hpolicy : config.buildPolicy = .ok policy) :
    GoesBy disk env o (Lookup.override o config) policy (Lookup.source disk env o.config) where
  showPolicy := by
    have hload := Lookup.load_of_read hconfig
    have hgoverned := Lookup.policy_override (o := o) hpolicy
    exact bind_eq_ok_iff.2 ⟨_, hload, bind_eq_ok_iff.2 ⟨policy, hgoverned, rfl⟩⟩
  classify := classify_eq_ok hconfig hpolicy
  check := by
    intro path format outcome
    rw [check_eq_ok_iff]
    constructor
    · rintro ⟨config', policy', files, units, hbasis, rfl⟩
      cases hbasis.configured.symm.trans hconfig
      cases hbasis.governed.symm.trans hpolicy
      exact ⟨files, units, hbasis.ordered, hbasis.found, hbasis.held, rfl⟩
    · rintro ⟨files, units, hordered, hfound, hheld, rfl⟩
      exact ⟨config, policy, files, units, ⟨hconfig, hpolicy, hordered, hfound, hheld⟩, rfl⟩

end Command

namespace Lookup

/-- The configuration in effect, for every disk, environment and command line. Exactly one source
decides. If it holds a configuration, this is loaded with two switches turned on, and the commands
print what they print by it. If it holds none, loading fails because of its file, and so does every
command that goes by a configuration. What is loaded is the same on every disk that agrees on the
deciding source, whatever else it has. And the commands know no more of the environment, the
switches and the files that may hold a configuration than what is loaded. -/
theorem one_source_decides (disk : Disk) (env : Environment) (o : Overrides) :
    ∃ s, (∀ t, Selects disk env o.config t ↔ t = s) ∧
      (∀ config, Holds disk s config → ∃ effective, Switched o config effective ∧
        load disk env o = .ok (effective, s) ∧
        ∀ policy, effective.buildPolicy = .ok policy →
          Command.GoesBy disk env o effective policy s) ∧
      ((¬ ∃ config, Holds disk s config) → ∃ file f, s.path? = some file ∧ FailsAt file f ∧
        load disk env o = .error f ∧
        ∀ args action, Invocation.ofArguments? args = some (.run o action) →
          Command.Configured action →
          Command.run disk env args = .ofFailure f) ∧
      (∀ disk', AgreeOn env s disk disk' → load disk' env o = load disk env o) ∧
      (∀ disk' env' o', load disk' env' o' = load disk env o →
        ∀ action, Command.AgreeBeside disk disk' action →
        Command.perform disk' env' o' action = Command.perform disk env o action) := by
  have hs : Selects disk env o.config (source disk env o.config) := selects_iff.2 rfl
  refine ⟨source disk env o.config, fun _ => selects_iff, ?_, ?_, ?_, ?_⟩
  · intro config hholds
    refine ⟨override o config, switched_override o config, load_of_holds hs hholds, ?_⟩
    intro policy hpolicy
    exact Command.goesBy_of_read (read_of_holds hholds) hpolicy
  · intro hnone
    -- No other source is tried in its place.
    obtain ⟨file, f, hfile, hf, hload⟩ := load_of_not_holds hs hnone
    refine ⟨file, f, hfile, hf, hload, ?_⟩
    intro args action hargs haction
    exact Command.run_of_load_error hload haction hargs
  · intro disk' hagree
    exact load_of_agreeOn hs hagree
  · intro disk' env' o' hload action hsame
    exact Command.perform_eq_of_load_eq hload hsame

/-- A directory where the first project file should be, the second one, and a global file. -/
def threePlaces (hidden global : String) : Survey where
  kinds := [("./chrome-style.toml", .directory), ("./.chrome-style.toml", .file),
    ("/etc/zones/config.toml", .file)]
  texts := [("./.chrome-style.toml", .ok hidden), ("/etc/zones/config.toml", .ok global)]

theorem selects_threePlaces (hidden global : String) :
    Selects (threePlaces hidden global).disk { configDirectory := some "/etc/zones" } none
      (.project "./.chrome-style.toml") := by
  refine ⟨.hidden rfl, ?_⟩
  rintro _ ⟨⟩ hfile
  cases hfile

/-- The second project file decides: with a switch beside it, with a fault in it, and whatever the
global file says. -/
theorem one_source_decides_threePlaces :
    (∃ effective, effective.options.noRealpath = true ∧ effective.options.warningsAsErrors = true ∧
      load (threePlaces "[options]\nno_realpath = true" "").disk
        { configDirectory := some "/etc/zones" } { warningsAsErrors := true } =
        .ok (effective, .project "./.chrome-style.toml")) ∧
    (∃ f, FailsAt "./.chrome-style.toml" f ∧
      Command.run (threePlaces "[options" "").disk { configDirectory := some "/etc/zones" }
        ["show-policy"] = .ofFailure f) ∧
    Command.perform
        (threePlaces "[options]\nno_realpath = true" "[options]\nwarnings_as_errors = true").disk
        { configDirectory := some "/etc/zones" } {} (.classify ["a.h"]) =
      Command.perform (threePlaces "[options]\nno_realpath = true" "").disk
        { configDirectory := some "/etc/zones" } {} (.classify ["a.h"]) := by
  refine ⟨?_, ?_, ?_⟩
  · obtain ⟨s, hs, hholds, -⟩ :=
      one_source_decides (threePlaces "[options]\nno_realpath = true" "").disk
      { configDirectory := some "/etc/zones" } { warningsAsErrors := true }
    obtain rfl := (hs _).1 (selects_threePlaces _ _)
    have htext : Config.ofText "[options]\nno_realpath = true" =
        .ok { options := { noRealpath := true } } := by
      decide +kernel
    obtain ⟨effective, hswitched, hload, -⟩ := hholds _ (.text rfl rfl htext)
    exact ⟨effective, hswitched.noRealpath.2 (.inl rfl),
      hswitched.warningsAsErrors.2 (.inr rfl), hload⟩
  · obtain ⟨s, hs, -, hfails, -⟩ := one_source_decides (threePlaces "[options" "").disk
      { configDirectory := some "/etc/zones" } {}
    obtain rfl := (hs _).1 (selects_threePlaces _ _)
    have htext : Config.ofText "[options" = .error .malformed := by decide +kernel
    obtain ⟨file, f, hfile, hf, -, hrun⟩ := hfails (by
      rintro ⟨config, hholds⟩
      cases hholds with
      | text hfile hread hconfig =>
        cases hfile
        cases hread
        cases htext.symm.trans hconfig)
    cases hfile
    exact ⟨f, hf, hrun ["show-policy"] .showPolicy (by decide +kernel) (by rintro _ ⟨⟩)⟩
  · obtain ⟨s, hs, -, -, hagree, hperform⟩ :=
      one_source_decides (threePlaces "[options]\nno_realpath = true" "").disk
      { configDirectory := some "/etc/zones" } {}
    obtain rfl := (hs _).1 (selects_threePlaces _ _)
    have hload := hagree
      (threePlaces "[options]\nno_realpath = true" "[options]\nwarnings_as_errors = true").disk
      { status := fun _ _ => Iff.rfl
        content := by rintro _ ⟨⟩; rfl
        first := (selects_threePlaces _ _).first }
    exact hperform _ _ _ hload (.classify ["a.h"]) rfl

end Lookup

end StyleZones

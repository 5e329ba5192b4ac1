import StyleZones.Command.Run
import StyleZones.Disk.Survey
import StyleZones.Proofs.Check.Verdict
import StyleZones.Proofs.Loops
import StyleZones.Proofs.Policy.Extension
import StyleZones.Proofs.Report.Printed
import StyleZones.Proofs.Snapshot.Image

/-!
# A check from the command line

A check reads a configuration, makes a policy of it, selects snapshots, loads all of them and prints
one report. Here the outcome is described from the disk alone.

* `Command.Hindrance` lists what can keep a check from being made; then nothing is printed and the
  run fails.
* Otherwise there is a basis (`Command.Basis`): a configuration, a policy, and the snapshots in the
  order of their paths with their units (`Command.exists_basis_iff`).
* `Command.check_outcome` puts this together with the verdict on the units and with what a printed
  report shows. Neither the format nor the order in which the disk lists snapshots has a part in the
  verdict.
-/

set_option autoImplicit false

namespace StyleZones

/-! ## The snapshots -/

namespace Snapshot

/-- The file holds the unit: it can be read, its text is a snapshot, and the snapshot loads. -/
def HeldIn (disk : Disk) (file : String) (u : SourceUnit) : Prop :=
  ∃ text s, disk.read file = .ok text ∧ ofText? text = some s ∧ s.load = .ok u

theorem unitOfFile_eq_ok_iff (disk : Disk) (file : String) (u : SourceUnit) :
    unitOfFile disk file = .ok u ↔ HeldIn disk file u := by
  unfold unitOfFile HeldIn
  cases disk.read file with
  | error e => simp
  | ok text =>
    simp only [unitOfText, Except.ok.injEq, exists_and_left, exists_eq_left']
    cases ofText? text with
    | none => simp
    | some s =>
      simp only [toUnit, Option.some.injEq, exists_eq_left']
      cases s.load <;> simp

theorem HeldIn.of_text {disk : Disk} {file text : String} {s : Snapshot} {u : SourceUnit}
    (hread : disk.read file = .ok text) (htext : ofText? text = some s) :
    HeldIn disk file u ↔ s.load = .ok u := by
  simp [HeldIn, hread, htext]

end Snapshot

/-- The order of paths sorts stably by their keys. -/
theorem Path.mergeSort_stableSort (found : List String) :
    StableSort key found (found.mergeSort fun a b => (compare a b).isLE) :=
  stableSort_mergeSort (fun a b => isLE_iff_of_compares (compare_compares a b)) found

namespace Command

variable (disk : Disk) (env : Environment) (o : Overrides) (path : String)

theorem loadUnit_eq_ok_iff (file : String) (u : SourceUnit) :
    loadUnit disk file = .ok u ↔ Snapshot.HeldIn disk file u := by
  rw [← Snapshot.unitOfFile_eq_ok_iff, loadUnit]
  cases Snapshot.unitOfFile disk file <;> simp

/-- The snapshots that a path stands for, as the disk lists them. Below a directory, only regular
files are taken. -/
def selected : List String :=
  if disk.isFile path then [path]
  else if disk.isDirectory path then
    (((searchRoot? path).map disk.jsonPaths).getD []).filter disk.isFile
  else []

/-- If any snapshots are taken, they are those selected, in the order of their paths. -/
theorem snapshots_eq_ok_iff {files : List String} (hfiles : files ≠ []) :
    snapshots disk path = .ok files ↔ StableSort Path.key (selected disk path) files := by
  have hunique : ∀ found sorted : List String, StableSort Path.key found sorted →
      ((.ok sorted : Except Failure (List String)) = .ok files ↔
        StableSort Path.key found files) := by
    intro found sorted h
    constructor
    · intro heq
      cases heq
      exact h
    · intro h'
      rw [h.unique h']
  unfold snapshots selected
  split_ifs
  · exact hunique _ _ ⟨List.pairwise_singleton _ _, fun _ => rfl⟩
  · exact hunique _ _ (Path.mergeSort_stableSort _)
  · constructor
    · intro h
      cases h
    · intro h
      exact absurd (List.perm_nil.1 h.perm) hfiles

/-! ## The loop over the snapshots -/

/-- The loop succeeds exactly if every file holds a unit, and then it has appended the reports about
the units. -/
theorem foldlM_loadUnit (c : Checker) (files : List String) (r r' : Report) :
    files.foldlM (fun r file => do return r.append (c.checkUnit disk.real (← loadUnit disk file)))
      r = .ok r' ↔
      ∃ units, List.Forall₂ (Snapshot.HeldIn disk) files units ∧
        r' = r.append (c.merged disk.real units) := by
  -- The report so far grows from turn to turn, and what comes after it is merged from the other
  -- end.
  induction files generalizing r with
  | nil =>
    rw [List.foldlM_nil]
    constructor
    · intro h
      obtain rfl := Except.ok.inj h
      exact ⟨[], .nil, (Report.append_empty _).symm⟩
    · rintro ⟨units, hunits, rfl⟩
      cases hunits
      rw [Checker.merged, List.map_nil, List.foldr_nil, Report.append_empty]
      rfl
  | cons file files ih =>
    rw [List.foldlM_cons, bind_eq_ok_iff]
    constructor
    · rintro ⟨s, hs, hrest⟩
      obtain ⟨u, hu, hs⟩ := bind_eq_ok_iff.1 hs
      cases hs
      obtain ⟨units, hunits, rfl⟩ := (ih _).1 hrest
      exact ⟨u :: units, .cons ((loadUnit_eq_ok_iff disk file u).1 hu) hunits,
        Report.append_assoc _ _ _⟩
    · rintro ⟨units, hunits, rfl⟩
      cases hunits with
      | cons hu hrest =>
        rename_i u units
        refine ⟨r.append (c.checkUnit disk.real u), ?_, ?_⟩
        · exact bind_eq_ok_iff.2 ⟨u, (loadUnit_eq_ok_iff disk file u).2 hu, rfl⟩
        · exact (ih _).2 ⟨units, hrest, (Report.append_assoc _ _ _).symm⟩

theorem checkFiles_eq_ok_iff (c : Checker) (files : List String) (r : Report) :
    checkFiles disk c files = .ok r ↔
      ∃ units, List.Forall₂ (Snapshot.HeldIn disk) files units ∧ r = c.merged disk.real units := by
  rw [checkFiles, foldlM_loadUnit]
  simp only [Report.empty_append]

/-! ## What a check goes by -/

/-- The checker of a configuration holds its policy and options, and one zone report. -/
theorem checker_eq_ok_iff (config : Config) (c : Checker) :
    checker config = .ok c ↔
      ∃ policy, config.buildPolicy = .ok policy ∧
        c = ⟨policy, config.options, [ZoneReport.check none]⟩ := by
  unfold checker Recipe.build Recipe.choosePolicy Recipe.ofSteps
  simp only [List.foldl_cons, List.foldl_nil, Recipe.apply]
  cases config.buildPolicy with
  | error e =>
    constructor
    · intro h
      cases h
    · rintro ⟨policy, hpolicy, -⟩
      cases hpolicy
  | ok policy =>
    constructor
    · intro h
      exact ⟨policy, rfl, (Except.ok.inj h).symm⟩
    · rintro ⟨policy', hpolicy, rfl⟩
      cases hpolicy
      rfl

/-- A configuration has a policy exactly if all its entries are well formed. -/
theorem exists_buildPolicy_iff (config : Config) :
    (∃ policy, config.buildPolicy = .ok policy) ↔ config.policy.entries.Valid := by
  have hextend : ∀ policy, config.buildPolicy = .ok policy ↔
      config.basePolicy.extend config.policy.entries = .ok policy := by
    intro policy
    unfold Config.buildPolicy
    cases config.basePolicy.extend config.policy.entries <;> simp
  simp only [hextend, Policy.extend_eq_ok_iff, exists_and_left, exists_eq, and_true]

/-- What keeps a check from being made. -/
inductive Hindrance : Prop
  /-- The configuration cannot be read. -/
  | unreadable {f : Failure} : Lookup.read disk (Lookup.source disk env o.config) = .error f →
      Hindrance
  /-- An entry for the policy is malformed. -/
  | malformed {config : Config} {x : Entry} :
      Lookup.read disk (Lookup.source disk env o.config) = .ok config →
      x ∈ config.policy.entries.listed → ¬ x.Valid → Hindrance
  /-- No snapshot is found. -/
  | nothing : selected disk path = [] → Hindrance
  /-- A snapshot cannot be read, or is none, or does not load. -/
  | broken {file : String} : file ∈ selected disk path → (¬ ∃ u, Snapshot.HeldIn disk file u) →
      Hindrance

/-- What a check goes by. -/
structure Basis (config : Config) (policy : Policy) (files : List String)
    (units : List SourceUnit) : Prop where
  /-- The configuration, before the command line overrides it. -/
  configured : Lookup.read disk (Lookup.source disk env o.config) = .ok config
  /-- Its policy. -/
  governed : config.buildPolicy = .ok policy
  /-- The snapshots in the order of their paths. -/
  ordered : StableSort Path.key (selected disk path) files
  /-- There are some. -/
  found : files ≠ []
  /-- Their units. -/
  held : List.Forall₂ (Snapshot.HeldIn disk) files units

/-- The checker of a check: it makes one zone report, which has no severity of its own. -/
def checkerFor (config : Config) (policy : Policy) : Checker :=
  ZoneReport.checker policy (Lookup.override o config).options [none]

variable {disk env o path}

/-- A check succeeds exactly if there is a basis for it, and prints the report about the units. -/
theorem check_eq_ok_iff {format : Format} {outcome : Outcome} :
    check disk env o path format = .ok outcome ↔
      ∃ config policy files units, Basis disk env o path config policy files units ∧
        outcome =
          { output := Output.report format ((checkerFor o config policy).merged disk.real units)
            status :=
              if ((checkerFor o config policy).merged disk.real units).hasErrors then 1
              else 0 } := by
  unfold check Lookup.load
  constructor
  · intro h
    -- Each step of the check has succeeded, and gives one part of the basis.
    obtain ⟨⟨config', source⟩, hload, h⟩ := bind_eq_ok_iff.1 h
    obtain ⟨config, hconfig, hload⟩ := bind_eq_ok_iff.1 hload
    cases hload
    obtain ⟨c, hc, h⟩ := bind_eq_ok_iff.1 h
    obtain ⟨policy, hpolicy, rfl⟩ := (checker_eq_ok_iff _ _).1 hc
    obtain ⟨files, hfiles, h⟩ := bind_eq_ok_iff.1 h
    by_cases hempty : files.isEmpty = true
    · rw [if_pos hempty] at h
      cases h
    · rw [if_neg hempty] at h
      have hne : files ≠ [] := mt List.isEmpty_iff.2 hempty
      obtain ⟨r, hr, h⟩ := bind_eq_ok_iff.1 h
      obtain ⟨units, hunits, rfl⟩ := (checkFiles_eq_ok_iff disk _ files r).1 hr
      exact ⟨config, policy, files, units,
        ⟨hconfig, hpolicy, (snapshots_eq_ok_iff disk path hne).1 hfiles, hne, hunits⟩,
          (Except.ok.inj h).symm⟩
  · rintro ⟨config, policy, files, units, hbasis, rfl⟩
    have hc : checker (Lookup.override o config) = .ok (checkerFor o config policy) :=
      (checker_eq_ok_iff _ _).2 ⟨policy, hbasis.governed, rfl⟩
    have hfiles := (snapshots_eq_ok_iff disk path hbasis.found).2 hbasis.ordered
    have hr :=
      (checkFiles_eq_ok_iff disk (checkerFor o config policy) files _).2 ⟨units, hbasis.held, rfl⟩
    refine bind_eq_ok_iff.2 ⟨(Lookup.override o config, Lookup.source disk env o.config), ?_, ?_⟩
    · exact bind_eq_ok_iff.2 ⟨config, hbasis.configured, rfl⟩
    · refine bind_eq_ok_iff.2 ⟨_, hc, bind_eq_ok_iff.2 ⟨files, hfiles, ?_⟩⟩
      rw [if_neg (mt List.isEmpty_iff.1 hbasis.found)]
      exact bind_eq_ok_iff.2 ⟨_, hr, rfl⟩

/-- There is a basis unless something is in the way. -/
theorem exists_basis_iff :
    (∃ config policy files units, Basis disk env o path config policy files units) ↔
      ¬ Hindrance disk env o path := by
  constructor
  · rintro ⟨config, policy, files, units, hbasis⟩ hindrance
    cases hindrance with
    | unreadable hread => cases hbasis.configured.symm.trans hread
    | malformed hread hx hnot =>
      cases hbasis.configured.symm.trans hread
      exact hnot ((exists_buildPolicy_iff config).1 ⟨policy, hbasis.governed⟩ _ hx)
    | nothing hnone =>
      have hperm := hbasis.ordered.perm
      rw [hnone] at hperm
      exact hbasis.found (List.perm_nil.1 hperm)
    | broken hfile hnot =>
      obtain ⟨u, -, hu⟩ :=
        exists_related_of_forall₂ hbasis.held (hbasis.ordered.perm.mem_iff.2 hfile)
      exact hnot ⟨u, hu⟩
  · intro hfree
    cases hread : Lookup.read disk (Lookup.source disk env o.config) with
    | error f => exact absurd (.unreadable hread) hfree
    | ok config =>
      -- A policy, an order and units are there, or else one of the other hindrances would be.
      obtain ⟨policy, hpolicy⟩ := (exists_buildPolicy_iff config).2 fun x hx =>
        by_contra fun hnot => hfree (.malformed hread hx hnot)
      have hsort := Path.mergeSort_stableSort (selected disk path)
      have hheld : ∀ file ∈ (selected disk path).mergeSort fun a b => (Path.compare a b).isLE,
          ∃ u, Snapshot.HeldIn disk file u := by
        intro file hfile
        exact by_contra fun hnot => hfree (.broken (hsort.perm.mem_iff.1 hfile) hnot)
      obtain ⟨units, hunits⟩ := exists_forall₂_iff.2 hheld
      refine ⟨config, policy, _, units, hread, hpolicy, hsort, fun hnil => ?_, hunits⟩
      exact hfree (.nothing (List.nil_perm.1 (hnil ▸ hsort.perm)))

/-! ## The whole run -/

variable (disk env o path)

/-- The command line asks for a check of a path, whether or not it asks to be told more. -/
def Asks (args : List String) (format : Format) : Prop :=
  ∃ verbose, Invocation.ofArguments? args =
    some (.run { o with verbose := verbose } (.check path format))

/-- The disk with another listing of its paths. -/
def relisted (listing : String → List String) : Disk :=
  { disk with jsonPaths := listing }

/-- The listing has the snapshots below the path in another order. No snapshot is listed twice. -/
def Relists (listing : String → List String) : Prop :=
  ∀ root ∈ searchRoot? path,
    ((disk.jsonPaths root).filter disk.isFile).Perm ((listing root).filter disk.isFile) ∧
      (((disk.jsonPaths root).filter disk.isFile).map Path.components).Nodup

variable {disk env o path}

theorem run_of_asks {args : List String} {format : Format} (h : Asks o path args format) :
    run disk env args = .ofExcept (check disk env o path format) := by
  obtain ⟨verbose, hargs⟩ := h
  rw [run, hargs]
  -- A check does not ask how much it should say.
  rfl

/-- A run with a basis prints the report about the units, and what it prints shows the report. -/
theorem run_of_basis {config : Config} {policy : Policy} {files : List String}
    {units : List SourceUnit} (hbasis : Basis disk env o path config policy files units)
    {args : List String} {format : Format} (hargs : Asks o path args format) :
    run disk env args =
        { output := Output.report format ((checkerFor o config policy).merged disk.real units)
          status :=
            if ((checkerFor o config policy).merged disk.real units).hasErrors then 1 else 0 } ∧
      ((checkerFor o config policy).merged disk.real units).ShownBy format
        (run disk env args).output := by
  rw [run_of_asks hargs, check_eq_ok_iff.2 ⟨config, policy, files, units, hbasis, rfl⟩]
  exact ⟨rfl, Report.shownBy_report _ format⟩

/-- The snapshots that are taken do not depend on the order in which the disk lists them. -/
theorem snapshots_relisted {listing : String → List String} (h : Relists disk path listing) :
    snapshots (relisted disk listing) path = snapshots disk path := by
  have hsorted :
      ((((searchRoot? path).map listing).getD []).filter disk.isFile).mergeSort
          (fun a b => (Path.compare a b).isLE) =
        ((((searchRoot? path).map disk.jsonPaths).getD []).filter disk.isFile).mergeSort
          fun a b => (Path.compare a b).isLE := by
    cases hroot : searchRoot? path with
    | none => rfl
    | some root =>
      obtain ⟨hperm, hnodup⟩ := h root hroot
      -- Paths with the same components would stay as they are listed, but there are none.
      have hkeys : ∀ a ∈ (disk.jsonPaths root).filter disk.isFile,
          ∀ b ∈ (disk.jsonPaths root).filter disk.isFile, Path.key a = Path.key b → a = b := by
        intro a ha b hb hab
        exact List.inj_on_of_nodup_map hnodup ha hb ((Path.key_eq_iff a b).1 hab)
      exact (Path.mergeSort_stableSort _).unique ((Path.mergeSort_stableSort _).of_perm hperm hkeys)
  have hopen : snapshots (relisted disk listing) path =
      if disk.isFile path then .ok [path]
      else if disk.isDirectory path then
        .ok (((((searchRoot? path).map listing).getD []).filter disk.isFile).mergeSort
          fun a b => (Path.compare a b).isLE)
      else .error ⟨"No such file or directory: " ++ path, []⟩ := rfl
  rw [hopen, hsorted]
  rfl

theorem check_relisted {listing : String → List String} (h : Relists disk path listing)
    (format : Format) :
    check (relisted disk listing) env o path format = check disk env o path format := by
  unfold check
  rw [snapshots_relisted h]
  -- Nothing else in a check looks at the listing.
  rfl

variable (disk env o path)

/-- What comes of a check, for every disk and all settings. If something is in the way, be it one
snapshot among many, nothing is printed and the run fails. Otherwise one report about all units, in
the order of their paths, is printed, and what is printed shows it in the format; its findings are
those about the units, one for each declaration that is forwarded, and the run fails exactly if
there are any and they are errors. The report and the status depend neither on the format and the
verbosity, nor on the order in which the disk lists the snapshots. -/
theorem check_outcome :
    (Hindrance disk env o path → ∀ args format, Asks o path args format →
      (run disk env args).output = "" ∧ (run disk env args).status = 1) ∧
    (¬ Hindrance disk env o path → ∃ config policy files units r status,
      Basis disk env o path config policy files units ∧
      ZoneReport.Verdict (checkerFor o config policy)
        (config.options.warningsAsErrors || o.warningsAsErrors) disk.real units r status ∧
      ∀ args format, Asks o path args format →
        run disk env args = { output := Output.report format r, status := status } ∧
          r.ShownBy format (run disk env args).output) ∧
    (∀ listing, Relists disk path listing → ∀ args format, Asks o path args format →
      run (relisted disk listing) env args = run disk env args) := by
  refine ⟨?_, ?_, ?_⟩
  · intro hindrance args format hargs
    rw [run_of_asks hargs]
    cases hcheck : check disk env o path format with
    | error f => exact ⟨rfl, rfl⟩
    | ok outcome =>
      obtain ⟨config, policy, files, units, hbasis, -⟩ := check_eq_ok_iff.1 hcheck
      exact absurd hindrance (exists_basis_iff.1 ⟨config, policy, files, units, hbasis⟩)
  · intro hfree
    obtain ⟨config, policy, files, units, hbasis⟩ := exists_basis_iff.2 hfree
    exact ⟨config, policy, files, units, _, _, hbasis, ZoneReport.verdict_merged _ _ _ _,
      fun args format hargs => run_of_basis hbasis hargs⟩
  · intro listing h args format hargs
    rw [run_of_asks hargs, run_of_asks hargs, check_relisted h]

/-- A directory in which one snapshot has an enumeration, another nothing, and a third file holds
none. -/
def sampleSurvey (listed : List String) : Survey where
  kinds := [("units", .directory), ("units/a.json", .file), ("units/b.json", .file),
    ("units/c.json", .file)]
  texts := [
    ("units/a.json", .ok "[[[\"a.h\"]],[[\"file\",0,3]],[[\"enum\",\"Mode\",null,0]]]"),
    ("units/b.json", .ok "[]"),
    ("units/c.json", .ok "[")]
  listings := [("units", listed)]

/-- The snapshot that has an enumeration. -/
def enumSnapshot : Snapshot :=
  ⟨[⟨"a.h", false, none⟩], [.inFile 0 3 1], [.enumeration "Mode" none 0]⟩

theorem heldIn_enum (listed : List String) (u : SourceUnit) :
    Snapshot.HeldIn (sampleSurvey listed).disk "units/a.json" u ↔ enumSnapshot.load = .ok u :=
  Snapshot.HeldIn.of_text rfl (by decide +kernel)

theorem heldIn_nothing (listed : List String) (u : SourceUnit) :
    Snapshot.HeldIn (sampleSurvey listed).disk "units/b.json" u ↔
      (⟨[], [], []⟩ : Snapshot).load = .ok u :=
  Snapshot.HeldIn.of_text rfl (by decide +kernel)

theorem selected_sample : selected (sampleSurvey ["units/b.json", "units/a.json"]).disk "units" =
    ["units/b.json", "units/a.json"] := by
  decide +kernel

/-- Of the two snapshots that can be read, nothing is in the way. -/
theorem not_hindrance_sample :
    ¬ Hindrance (sampleSurvey ["units/b.json", "units/a.json"]).disk {} { warningsAsErrors := true }
      "units" := by
  intro hindrance
  cases hindrance with
  | unreadable hread => cases hread
  | malformed hread hx _ =>
    obtain rfl := Except.ok.inj hread
    cases hx
  | nothing hnone => cases selected_sample.symm.trans hnone
  | broken hfile hnot =>
    rw [selected_sample, List.mem_cons, List.mem_singleton] at hfile
    rcases hfile with rfl | rfl
    · exact hnot ⟨_, (heldIn_nothing _ _).2 rfl⟩
    · exact hnot ⟨_, (heldIn_enum _ _).2 rfl⟩

/-- The units of the two snapshots, in the order of their paths. -/
theorem units_sample {config : Config} {policy : Policy} {files : List String}
    {units : List SourceUnit}
    (h : Basis (sampleSurvey ["units/b.json", "units/a.json"]).disk {} { warningsAsErrors := true }
      "units" config policy files units) :
    config = {} ∧ policy = .chromium ∧ units = [enumSnapshot.image, .empty] := by
  have hkeys : Path.key "units/a.json" ≤ Path.key "units/b.json" :=
    (isLE_iff_of_compares (Path.compare_compares _ _)).1 (by decide +kernel)
  have hne : Path.key "units/b.json" ≠ Path.key "units/a.json" := by
    rw [Ne, Path.key_eq_iff]
    decide +kernel
  have hsorted :
      StableSort Path.key ["units/b.json", "units/a.json"] ["units/a.json", "units/b.json"] := by
    refine StableSort.of_perm (List.Perm.swap _ _ _) ?_ ⟨by simpa using hkeys, fun _ => rfl⟩
    simp [hne, hne.symm]
  obtain rfl := h.ordered.unique (selected_sample ▸ hsorted)
  obtain rfl := Except.ok.inj h.configured
  have hpolicy : Config.buildPolicy {} = .ok .chromium := by decide +kernel
  obtain rfl := Except.ok.inj (hpolicy.symm.trans h.governed)
  rcases h.held with _ | ⟨ha, _ | ⟨hb, _ | _⟩⟩
  obtain rfl := Except.ok.inj ((heldIn_enum _ _).1 ha)
  obtain rfl := Except.ok.inj ((heldIn_nothing _ _).1 hb)
  exact ⟨rfl, rfl, rfl⟩

/-- The finding about the enumeration. -/
def enumFinding : Finding where
  code := "CS001"
  check := "zone-report"
  severity := .error
  zone := .chrome
  declaration := "Mode"
  location := ⟨"a.h", 3, 1⟩
  message := "enum 'Mode' in chrome zone, namespace '', declared in header"

/-- Since the other snapshot has nothing, the finding about the enumeration is the only one. -/
theorem findings_sample {r : Report} {status : Nat}
    (h : ZoneReport.Verdict (checkerFor { warningsAsErrors := true } {} .chromium) true
      (fun _ => none) [enumSnapshot.image, .empty] r status) : r.findings = [enumFinding] := by
  have henum := (Checker.checkDecls_stableSort
    (checkerFor { warningsAsErrors := true } {} .chromium) (fun _ => none) enumSnapshot.image
    enumSnapshot.image.tags).perm
  have hnothing := (Checker.checkDecls_stableSort
    (checkerFor { warningsAsErrors := true } {} .chromium) (fun _ => none) .empty
    SourceUnit.empty.tags).perm
  have htags : enumSnapshot.image.tags = [1] := by decide +kernel
  have htag : (checkerFor { warningsAsErrors := true } {} .chromium).checkTag (fun _ => none)
      enumSnapshot.image 1 = [enumFinding] := by decide +kernel
  rw [htags, List.flatMap_singleton, htag, List.perm_singleton] at henum
  have hnone : SourceUnit.empty.tags = [] := by decide +kernel
  rw [hnone, List.flatMap_nil, List.perm_nil] at hnothing
  rw [h.findings, List.flatMap_cons, List.flatMap_singleton, htags, henum, hnone, hnothing,
    List.append_nil]

/-- With the third file nothing is printed. Without it there is one line, about the enumeration, and
the run fails since the finding is an error. In which order the files are listed makes no
difference. -/
theorem check_outcome_sample :
    ((run (sampleSurvey ["units/b.json", "units/a.json", "units/c.json"]).disk {}
        ["check", "--warnings-as-errors", "units"]).output = "" ∧
      (run (sampleSurvey ["units/b.json", "units/a.json", "units/c.json"]).disk {}
        ["check", "--warnings-as-errors", "units"]).status = 1) ∧
    run (sampleSurvey ["units/b.json", "units/a.json"]).disk {}
        ["check", "-f", "compact", "--warnings-as-errors", "units"] =
      { output :=
          "a.h:3:1: error [CS001] enum 'Mode' in chrome zone, namespace '', declared in header\n"
        status := 1 } ∧
    run (sampleSurvey ["units/a.json", "units/b.json"]).disk {}
        ["check", "--warnings-as-errors", "units"] =
      run (sampleSurvey ["units/b.json", "units/a.json"]).disk {}
        ["check", "--warnings-as-errors", "units"] := by
  have hasks : Asks { warningsAsErrors := true } "units"
      ["check", "--warnings-as-errors", "units"] .text :=
    ⟨false, by decide +kernel⟩
  refine ⟨?_, ?_, ?_⟩
  · have hmem : "units/c.json" ∈
        selected (sampleSurvey ["units/b.json", "units/a.json", "units/c.json"]).disk "units" := by
      decide +kernel
    have hbroken : ¬ ∃ u, Snapshot.HeldIn
        (sampleSurvey ["units/b.json", "units/a.json", "units/c.json"]).disk "units/c.json" u := by
      rintro ⟨u, text, s, hread, htext, -⟩
      obtain rfl := Except.ok.inj hread
      rw [show Snapshot.ofText? "[" = none by decide +kernel] at htext
      cases htext
    exact (check_outcome _ {} { warningsAsErrors := true } "units").1
      (.broken hmem hbroken) _ _ hasks
  · obtain ⟨config, policy, files, units, r, status, hbasis, hverdict, hrun⟩ :=
      (check_outcome _ {} { warningsAsErrors := true } "units").2.1 not_hindrance_sample
    obtain ⟨rfl, rfl, rfl⟩ := units_sample hbasis
    obtain ⟨heq, hshown⟩ :=
      hrun ["check", "-f", "compact", "--warnings-as-errors", "units"] .compact
        ⟨false, by decide +kernel⟩
    have hstatus : status = 1 := by
      refine (hverdict.fails ?_).2 ⟨rfl, enumSnapshot.image, by simp, 1, by decide +kernel⟩
      simp [SourceUnit.Addressable, show enumSnapshot.image.decls.size = 2 by rfl,
        show SourceUnit.empty.decls.size = 1 by rfl, UInt32.size]
    -- There is one finding, so there is one line, and it says all about the finding.
    obtain ⟨lines, hlines, houtput⟩ := Report.shownBy_compact_iff.1 hshown
    rw [findings_sample hverdict] at hlines
    rcases hlines with _ | ⟨hline, _ | _⟩
    rw [heq] at houtput
    have htext : Output.report .compact r =
      "a.h:3:1: error [CS001] enum 'Mode' in chrome zone, namespace '', declared in header\n" := by
      rw [show Output.report .compact r = _ from houtput, hline]
      decide +kernel
    rw [heq, hstatus, htext]
  · refine (check_outcome (sampleSurvey ["units/b.json", "units/a.json"]).disk {}
      { warningsAsErrors := true } "units").2.2
      (sampleSurvey ["units/a.json", "units/b.json"]).disk.jsonPaths ?_ _ _ hasks
    intro root hroot
    obtain rfl :=
      Option.some.inj ((show searchRoot? "units" = some "units" by decide +kernel).symm.trans hroot)
    exact ⟨List.Perm.swap _ _ _, by decide +kernel⟩

end Command

end StyleZones

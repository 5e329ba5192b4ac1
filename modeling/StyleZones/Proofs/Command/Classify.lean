import StyleZones.Proofs.Check.Dispatch
import StyleZones.Proofs.Command.Check

/-!
# Zones from the command line

Two commands say which zone code is in. One prints the zones of file names that it is given. The
other checks snapshots, and goes from a declaration to the file in which its text was typed, over
the links of macros and the names that line directives give. The first makes its classifier from the
configuration, the second has it made with its checker.

`Command.classify_agrees_with_check`: under the same settings both come to the same zone, and what
the first prints about the name of its file decides, together with its own name, whether a
declaration has a finding.
-/

set_option autoImplicit false

namespace StyleZones

namespace Zone

theorem name_injective : Function.Injective name := by
  intro a b h
  apply Option.some.inj
  rw [← ofName?_name, h, ofName?_name]

end Zone

/-- A declaration that is forwarded is not in the third-party zone. -/
theorem Checker.zone_ne_thirdParty_of_forward (c : Checker) (real : RealPath) {u : SourceUnit}
    {d position : Nat} {zone : Zone} {tag : Tag}
    (h : c.triage real u d = .forward zone position tag) : zone ≠ .thirdParty := by
  rw [c.triage_of_placed real (c.placed_of_triage_forward real h), settle] at h
  split_ifs at h with hparty
  obtain ⟨rfl, -⟩ := Disposition.forward.inj h
  exact hparty

namespace Lookup

/-! ## The configuration in effect -/

theorem load_of_read {disk : Disk} {env : Environment} {o : Overrides} {config : Config}
    (h : read disk (source disk env o.config) = .ok config) :
    load disk env o = .ok (override o config, source disk env o.config) :=
  bind_eq_ok_iff.2 ⟨config, h, rfl⟩

/-- The command line overrides nothing that the policy is made of. -/
theorem policy_override {o : Overrides} {config : Config} {p : Policy}
    (h : config.buildPolicy = .ok p) :
    policy (override o config) = .ok p := by
  rw [policy, show (override o config).buildPolicy = .ok p from h]

end Lookup

namespace Command

/-! ## What is printed about file names -/

variable (disk : Disk) (env : Environment) (o : Overrides)

/-- The command line asks for the zones of file names, whether or not it asks to be told more. -/
def AsksZones (names args : List String) : Prop :=
  ∃ verbose, Invocation.ofArguments? args =
    some (.run { o with verbose := verbose } (.classify names))

/-- The line about one file name in a zone. -/
def zoneLine (name : String) (zone : Zone) : String :=
  Output.lines [Output.padRight name.utf8ByteSize name ++ "  " ++ zone.name]

/-- Asked about the file name alone, the command prints the zone. -/
def PrintsZone (name : String) (zone : Zone) : Prop :=
  classify disk env o [name] = .ok (.success (zoneLine name zone))

/-- The zone is read off the line. -/
theorem zoneLine_injective (name : String) : Function.Injective (zoneLine name) := by
  intro a b h
  apply Zone.name_injective
  have hchars := congrArg String.toList h
  simpa [zoneLine, Output.lines, ← String.toList_inj] using hchars

variable {disk env o}

theorem run_of_asksZones {names args : List String} (h : AsksZones o names args) :
    run disk env args = .ofExcept (classify disk env o names) := by
  obtain ⟨verbose, hargs⟩ := h
  rw [run, hargs]
  rfl

variable {config : Config} {policy : Policy}
  (hconfig : Lookup.read disk (Lookup.source disk env o.config) = .ok config)
  (hpolicy : config.buildPolicy = .ok policy)
include hconfig hpolicy

/-- The classifier of the command is the one that the checker has under the same settings. -/
theorem classify_eq_ok (names : List String) :
    classify disk env o names =
      .ok (.success
        (Output.zones ((checkerFor o config policy).classifier disk.real).zoneOfName names)) := by
  have hload := Lookup.load_of_read hconfig
  have hgoverned := Lookup.policy_override (o := o) hpolicy
  refine bind_eq_ok_iff.2 ⟨_, hload, bind_eq_ok_iff.2 ⟨policy, hgoverned, ?_⟩⟩
  rfl

theorem printsZone_iff (name : String) (zone : Zone) :
    PrintsZone disk env o name zone ↔
      ((checkerFor o config policy).classifier disk.real).zoneOfName name = zone := by
  have hzones : Output.zones ((checkerFor o config policy).classifier disk.real).zoneOfName [name] =
      zoneLine name (((checkerFor o config policy).classifier disk.real).zoneOfName name) := by
    simp [Output.zones, zoneLine, Output.pathWidth]
  rw [PrintsZone, classify_eq_ok hconfig hpolicy, hzones]
  constructor
  · intro h
    exact zoneLine_injective name (Outcome.mk.inj (Except.ok.inj h)).1
  · rintro rfl
    rfl

omit hconfig hpolicy

/-! ## What a declaration contributes to a report -/

/-- A record or an enumeration of this name is checked if its file is in the zone. -/
def Checked (policy : Policy) (tag : Tag) (name : String) (zone : Zone) : Prop :=
  zone ≠ .thirdParty ∧ name ∉ policy.types ∧
    ¬ (tag.isClass = true ∧ "Matcher".toList <:+ name.toList)

variable (disk env o config policy)

/-- The two commands agree about a declaration whose text was typed in a file of this name: what the
first prints about the name of the file is the zone in which the second finds the declaration. -/
structure Agree (u : SourceUnit) (d position : Nat) (tag : Tag) (name file : String) (zone : Zone) :
    Prop where
  /-- The first command prints the zone, and no other. -/
  printed : ∀ zone', PrintsZone disk env o file zone' ↔ zone' = zone
  /-- The second command uses the zone. -/
  used : ((checkerFor o config policy).classifier disk.real).zoneOfPosition u position = zone
  /-- The declaration is one of those that are looked at, and looked at once. -/
  looked : u.tags.count d = 1
  /-- If it is checked, it contributes one finding, which carries the zone. -/
  found : Checked policy tag name zone →
    ∃ f, (checkerFor o config policy).checkTag disk.real u d = [f] ∧
    f.zone = zone ∧ f.declaration = u.qualifiedName d
  /-- Otherwise it contributes none. -/
  spared : ¬ Checked policy tag name zone → (checkerFor o config policy).checkTag disk.real u d = []

/-- The report is made of what the declarations of the units contribute, unit by unit. -/
structure MadeOf (units : List SourceUnit) (r : Report) : Prop where
  /-- The findings about the units stand one after another. -/
  findings : r.findings =
    units.flatMap fun u => ((checkerFor o config policy).checkUnit disk.real u).findings
  /-- The findings about a unit are what its declarations contribute, in another order. -/
  contributions : ∀ u ∈ units, ((checkerFor o config policy).checkUnit disk.real u).findings.Perm
    (u.tags.flatMap ((checkerFor o config policy).checkTag disk.real u))

variable {disk env o config policy}

theorem madeOf_merged (units : List SourceUnit) :
    MadeOf disk o config policy units ((checkerFor o config policy).merged disk.real units) where
  findings := Checker.merged_findings _ disk.real units
  contributions := fun u _ => (Checker.checkDecls_stableSort _ disk.real u u.tags).perm

/-- No finding is in the third-party zone, since a declaration in this zone is not forwarded. -/
theorem zone_ne_thirdParty_of_madeOf {units : List SourceUnit} {r : Report}
    (hr : MadeOf disk o config policy units r) {f : Finding} (hf : f ∈ r.findings) :
    f.zone ≠ .thirdParty := by
  rw [hr.findings, List.mem_flatMap] at hf
  obtain ⟨u, hu, hf⟩ := hf
  obtain ⟨d, -, hf⟩ := List.mem_flatMap.1 ((hr.contributions u hu).mem_iff.1 hf)
  cases htriage : (checkerFor o config policy).triage disk.real u d with
  | skipped reason =>
    rw [checkerFor, ZoneReport.checkTag_of_skipped _ _ disk.real u htriage] at hf
    cases hf
  | forward zone position tag =>
    obtain ⟨g, hg, ⟨position', tag', hforward, -⟩, -⟩ :=
      ZoneReport.checkTag_of_forward _ _ disk.real u htriage
    rw [checkerFor, hg, List.mem_singleton] at hf
    rw [hf]
    exact Checker.zone_ne_thirdParty_of_forward _ disk.real hforward

/-- What a declaration of a loaded unit contributes is settled by its zone and its name. -/
theorem checkTag_of_tagged {s : Snapshot} {u : SourceUnit} (ha : s.Addressable)
    (hload : s.load = .ok u) {i : Nat} {e : DeclEntry} (he : s.decls[i]? = some e) {tag : Tag}
    {name : String} {p : UInt64} (ht : e.tagged? (i + 1) = some (tag, name, p)) {zone : Zone}
    (hzone : ((checkerFor o config policy).classifier disk.real).zoneOfPosition u p.toNat = zone) :
    (Checked policy tag name zone →
      ∃ f, (checkerFor o config policy).checkTag disk.real u (i + 1) = [f] ∧
      f.zone = zone ∧ f.declaration = u.qualifiedName (i + 1)) ∧
    (¬ Checked policy tag name zone →
      (checkerFor o config policy).checkTag disk.real u (i + 1) = []) := by
  obtain ⟨-, rfl⟩ := (Snapshot.load_eq_ok_iff_image ha u).1 hload
  have hgoverned : (checkerFor o config policy).policy = policy := rfl
  have htriage := (checkerFor o config policy).triage_image_of_tagged disk.real he ht
  rw [hzone, hgoverned] at htriage
  constructor
  · rintro ⟨hparty, hname, hmatcher⟩
    rw [if_neg hparty, if_neg hname, if_neg hmatcher] at htriage
    obtain ⟨f, hf, ⟨position, tag', hforward, hdeclaration, -⟩, -⟩ :=
      ZoneReport.checkTag_of_forward _ _ disk.real s.image htriage
    have hf_zone : zone = f.zone := (Disposition.forward.inj (htriage.symm.trans hforward)).1
    exact ⟨f, hf, hf_zone.symm, hdeclaration⟩
  · intro hnot
    -- One of the three tests is against the declaration, whichever it is.
    obtain ⟨reason, hskipped⟩ : ∃ reason,
        (checkerFor o config policy).triage disk.real s.image (i + 1) = .skipped reason := by
      split_ifs at htriage with hparty hname hmatcher
      · exact ⟨_, htriage⟩
      · exact ⟨_, htriage⟩
      · exact ⟨_, htriage⟩
      · exact absurd ⟨hparty, hname, hmatcher⟩ hnot
    exact ZoneReport.checkTag_of_skipped _ _ disk.real s.image hskipped

/-- Among the tags, a declaration of a loaded unit is listed once. -/
theorem count_tags_of_tagged {s : Snapshot} {u : SourceUnit} (ha : s.Addressable)
    (hload : s.load = .ok u) {i : Nat} {e : DeclEntry} (he : s.decls[i]? = some e)
    {tagged : Tag × String × UInt64} (ht : e.tagged? (i + 1) = some tagged) :
    u.tags.count (i + 1) = 1 := by
  have hu : u.Addressable := (s.sized_of_load hload).decls.trans_le ha.decls
  obtain ⟨-, rfl⟩ := (Snapshot.load_eq_ok_iff_image ha u).1 hload
  refine List.count_eq_one_of_mem hu.nodup_tags ((hu.mem_tags_iff _).2 ?_)
  rw [SourceUnit.isTag, Snapshot.getElem?_image_decls he]
  cases e <;> first | rfl | cases ht

/-! ## Agreement -/

/-- The commands agree, for every disk and all settings under which there is a configuration with a
policy. Take a record or an enumeration of a snapshot that loads and that has no more entries than
there are words. If it is used in no system file and its text was typed in a file, the zone that is
printed about the reported name of the file is the zone that a check uses. If this is not the
third-party zone, and the declaration has no ignored name and is no class named as a test matcher,
it contributes one finding in that zone to the report of a check, and otherwise none. Every check
that is made prints a report of these contributions, and no finding in it is in the third-party
zone. -/
theorem classify_agrees_with_check
    (hconfig : Lookup.read disk (Lookup.source disk env o.config) = .ok config)
    (hpolicy : config.buildPolicy = .ok policy) :
    (∀ (s : Snapshot) (u : SourceUnit), s.Addressable → s.load = .ok u →
      ∀ (i : Nat) (e : DeclEntry), s.decls[i]? = some e →
        ∀ tag name p, e.tagged? (i + 1) = some (tag, name, p) →
          (¬ ∃ g, s.UsedIn p.toNat g ∧ g.system = true) → ∀ f, s.TypedIn p.toNat f →
            ∃ zone, Agree disk env o config policy u (i + 1) p.toNat tag name f.reportedName zone) ∧
    (∀ path files units, Basis disk env o path config policy files units →
      ∃ r status, MadeOf disk o config policy units r ∧ (∀ f ∈ r.findings, f.zone ≠ .thirdParty) ∧
        ∀ args format, Asks o path args format →
          run disk env args = { output := Output.report format r, status := status } ∧
            r.ShownBy format (run disk env args).output) ∧
    ∀ names args, AsksZones o names args →
      run disk env args = .ofExcept (classify disk env o names) := by
  refine ⟨?_, ?_, fun names args hargs => run_of_asksZones hargs⟩
  · intro s u ha hload i e he tag name p ht hsystem f hf
    have hzone : ((checkerFor o config policy).classifier disk.real).zoneOfPosition u p.toNat =
        ((checkerFor o config policy).classifier disk.real).zoneOfName f.reportedName := by
      obtain ⟨hs, rfl⟩ := (Snapshot.load_eq_ok_iff_image ha u).1 hload
      exact Classifier.zoneOfPosition_of_typedIn _ hs hsystem hf
    obtain ⟨hfound, hspared⟩ := checkTag_of_tagged ha hload he ht hzone
    refine ⟨_, ?_, hzone, count_tags_of_tagged ha hload he ht, hfound, hspared⟩
    intro zone'
    rw [printsZone_iff hconfig hpolicy, eq_comm]
  · intro path files units hbasis
    exact ⟨_, _, madeOf_merged units,
      fun f hf => zone_ne_thirdParty_of_madeOf (madeOf_merged units) hf,
      fun args format hargs => run_of_basis hbasis hargs⟩

/-- An enumeration that a macro declares. A line directive puts the text of the macro into the
rendering engine. -/
def engineSnapshot : Snapshot :=
  ⟨[⟨"gen/a.h", false, some "third_party\\blink\\a.y"⟩, ⟨"b.h", false, none⟩],
    [.inFile 0 3 1, .inFile 1 7 1, .inMacro 0 1], [.enumeration "Mode" none 2]⟩

/-- A disk that holds the snapshot and nothing else. -/
def engineSurvey : Survey where
  kinds := [("unit.json", .file)]
  texts := [("unit.json",
    .ok ("[[[\"gen/a.h\",false,\"third_party\\\\blink\\\\a.y\"],[\"b.h\"]]," ++
    "[[\"file\",0,3],[\"file\",1,7],[\"macro\",0,1]],[[\"enum\",\"Mode\",null,2]]]"))]

/-- What is found out about the enumeration. -/
def engineFinding : Finding where
  code := "CS001"
  check := "zone-report"
  severity := .warning
  zone := .blink
  declaration := "Mode"
  location := ⟨"b.h", 7, 1⟩
  message := "enum 'Mode' in blink zone, namespace '', declared in header"

theorem addressable_engine : engineSnapshot.Addressable := by
  constructor <;> decide

/-- Nothing is in the way of a check of the snapshot. -/
theorem basis_engine : Basis engineSurvey.disk {} { noRealpath := true } "unit.json" {} .chromium
    ["unit.json"] [engineSnapshot.image] where
  configured := rfl
  governed := by decide +kernel
  ordered := ⟨List.pairwise_singleton _ _, fun _ => rfl⟩
  found := by simp
  held := .cons ((Snapshot.HeldIn.of_text rfl (s := engineSnapshot) (by decide +kernel)).2 rfl) .nil

/-- The text of the enumeration was typed in the file with the line directive, and it is used in the
other one. -/
theorem typedIn_engine :
    engineSnapshot.TypedIn 2 ⟨"gen/a.h", false, some "third_party\\blink\\a.y"⟩ ∧
      ¬ ∃ g, engineSnapshot.UsedIn 2 g ∧ g.system = true := by
  obtain ⟨hs, -⟩ := (Snapshot.load_eq_ok_iff_image addressable_engine engineSnapshot.image).1 rfl
  refine ⟨(Snapshot.typedIn_iff hs 2 _).2 (by decide +kernel), ?_⟩
  rintro ⟨g, hg, hsystem⟩
  have hfile : engineSnapshot.image.file? (engineSnapshot.image.expansionRoot 2) =
      some ⟨"b.h", false, none⟩ := by decide +kernel
  obtain rfl := Option.some.inj (hfile.symm.trans ((Snapshot.usedIn_iff hs 2 g).1 hg))
  cases hsystem

/-- Without resolving, one command prints the zone about the name that the line directive gives. The
other prints one line about the snapshot, at the place where the macro is used: the enumeration is
in the same zone. -/
theorem classify_agrees_with_check_engine :
    engineSnapshot.Addressable ∧ engineSnapshot.load = .ok engineSnapshot.image ∧
    run engineSurvey.disk {} ["classify", "--no-realpath", "third_party\\blink\\a.y"] =
      .success "third_party\\blink\\a.y  blink\n" ∧
    (∃ f, (checkerFor { noRealpath := true } {} .chromium).checkTag (fun _ => none)
      engineSnapshot.image 1 = [f] ∧ f.zone = .blink) ∧
    (run engineSurvey.disk {} ["check", "-f", "compact", "--no-realpath", "unit.json"]).output =
      "b.h:7:1: warning [CS001] enum 'Mode' in blink zone, namespace '', declared in header\n" := by
  have hload : engineSnapshot.load = .ok engineSnapshot.image := rfl
  obtain ⟨hagrees, hchecks, hclassifies⟩ := @classify_agrees_with_check engineSurvey.disk {}
    { noRealpath := true } {} .chromium basis_engine.configured basis_engine.governed
  have hprints :
      PrintsZone engineSurvey.disk {} { noRealpath := true } "third_party\\blink\\a.y" .blink := by
    rw [PrintsZone]
    decide +kernel
  obtain ⟨zone, hagree⟩ := hagrees engineSnapshot _ addressable_engine hload 0 _ rfl _ _ _ rfl
    typedIn_engine.2 _ typedIn_engine.1
  obtain rfl := (hagree.printed .blink).1 hprints
  obtain ⟨f, hf, hzone, -⟩ := hagree.found ⟨by decide, by decide +kernel, by decide⟩
  refine ⟨addressable_engine, hload, ?_, ⟨f, hf, hzone⟩, ?_⟩
  · rw [hclassifies ["third_party\\blink\\a.y"] _ ⟨false, by decide +kernel⟩, hprints]
    decide +kernel
  · obtain ⟨r, status, hr, -, hrun⟩ := hchecks _ _ _ basis_engine
    obtain ⟨-, hshown⟩ := hrun ["check", "-f", "compact", "--no-realpath", "unit.json"] .compact
      ⟨false, by decide +kernel⟩
    -- The enumeration is all there is in the unit, so what it contributes is the whole report.
    have hfindings : r.findings = [f] := by
      have hperm := hr.contributions engineSnapshot.image (List.mem_singleton_self _)
      rw [show engineSnapshot.image.tags = [1] by decide +kernel, List.flatMap_singleton,
        show (checkerFor { noRealpath := true } {} .chromium).checkTag engineSurvey.disk.real _ 1 =
          [f] from hf, List.perm_singleton] at hperm
      rw [hr.findings, List.flatMap_singleton, hperm]
    have hfinding : [f] = [engineFinding] := hf.symm.trans (by decide +kernel)
    obtain ⟨lines, hlines, houtput⟩ := Report.shownBy_compact_iff.1 hshown
    rw [hfindings, hfinding] at hlines
    rcases hlines with _ | ⟨hline, _ | _⟩
    rw [houtput, hline]
    decide +kernel

end Command

end StyleZones

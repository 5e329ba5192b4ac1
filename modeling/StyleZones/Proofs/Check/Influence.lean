import StyleZones.Proofs.Check.Triage
import StyleZones.Proofs.Check.ZoneReport

/-!
# What a setting can influence

Zone reports run twice over the same declarations, with settings that differ in one point: the
ignored base classes, whether findings are errors, or how much of the namespaces is shown. None of
these has a part in the decision about a declaration (`Checker.triage_congr`) or in the place where
it is reported, so both runs have the same agenda (`ZoneReport.agenda_congr`) and say something
about the same items in the same order. It remains to compare what is said about one item.

`ZoneReport.report_influences` puts this together for the three settings.
-/

set_option autoImplicit false

namespace StyleZones

/-! ## The decision -/

/-- Two policies with options agree in what decisions about declarations depend on. -/
structure DecideAlike (p : Policy) (o : Options) (p' : Policy) (o' : Options) : Prop where
  directories : p'.directories = p.directories
  types : p'.types = p.types
  paths : o'.noRealpath = o.noRealpath

namespace Checker

variable {c c' : Checker} (h : DecideAlike c.policy c.options c'.policy c'.options)
include h

/-- Zones rest on the directories of the policy and on how paths are made, and both are the same. -/
theorem zoneOfPosition_congr (real : RealPath) (u : SourceUnit) (p : Nat) :
    (c'.classifier real).zoneOfPosition u p = (c.classifier real).zoneOfPosition u p := by
  have hpath :
      ∀ path, Classifier.zoneOfPath c'.policy path = Classifier.zoneOfPath c.policy path := by
    intro path
    rw [Classifier.zoneOfPath, Policy.bannedDirectoryIn, h.directories]
    rfl
  have hname :
      ∀ name, (c'.classifier real).zoneOfName name = (c.classifier real).zoneOfName name := by
    intro name
    rw [Classifier.zoneOfName, Classifier.normalize, classifier, hpath, Options.pathMode, h.paths]
    rfl
  unfold Classifier.zoneOfPosition
  simp only [hname]

/-- Whatever else they differ in, two checkers that agree there decide alike. -/
theorem triage_congr (real : RealPath) (u : SourceUnit) (d : Nat) :
    c'.triage real u d = c.triage real u d := by
  cases hplaced : Tag.placed? u d with
  | none => rw [c.triage_of_not_placed real hplaced, c'.triage_of_not_placed real hplaced]
  | some placed =>
    rw [c.triage_of_placed real hplaced, c'.triage_of_placed real hplaced, zoneOfPosition_congr h,
      settle, settle, h.types]

end Checker

/-! ## The agenda and the counts -/

/-- Both reports are about as many declarations, and as many of them are checked. -/
def Report.SameCounts (r r' : Report) : Prop :=
  r'.seen = r.seen ∧ r'.checked = r.checked

namespace ZoneReport

section Runs

variable {p p' : Policy} {o o' : Options} (h : DecideAlike p o p' o')
  (pins : List (Option Severity))
  (real : RealPath) (u : SourceUnit) (ds : List Nat)
include h

theorem triage_checker_congr (d : Nat) :
    (checker p' o' pins).triage real u d = (checker p o pins).triage real u d := by
  have hcheckers :
      DecideAlike (checker p o pins).policy (checker p o pins).options (checker p' o' pins).policy
      (checker p' o' pins).options := h
  exact Checker.triage_congr hcheckers real u d

/-- Both runs have the same items to report about, in the same order. -/
theorem agenda_congr : agenda p' o' pins real u ds = agenda p o pins real u ds := by
  unfold agenda
  simp only [triage_checker_congr h]
  rfl

/-- Both runs see and check the same numbers of declarations. -/
theorem report_sameCounts :
    (report p o pins real u ds).SameCounts (report p' o' pins real u ds) := by
  have hforwards : (checker p' o' pins).forwards real u = (checker p o pins).forwards real u := by
    funext d
    rw [Checker.forwards, triage_checker_congr h, Checker.forwards]
  unfold report
  rw [Checker.checkDecls_eq_sorted, Checker.checkDecls_eq_sorted]
  refine ⟨rfl, ?_⟩
  show UInt64.ofNat _ = UInt64.ofNat _
  rw [hforwards]

/-- What can be said about each item of the agenda can be said about the findings, one by one. -/
theorem forall₂_findings {related : Finding → Finding → Prop}
    (hitem : ∀ i : Item, related (i.finding ⟨u, p, o⟩) (i.finding ⟨u, p', o'⟩)) :
    List.Forall₂ related (report p o pins real u ds).findings
      (report p' o' pins real u ds).findings := by
  rw [findings_eq_map_agenda, findings_eq_map_agenda, agenda_congr h,
    List.forall₂_map_left_iff, List.forall₂_map_right_iff]
  exact List.forall₂_same.2 fun i _ => hitem i

end Runs

/-! ## What is said about an item -/

/-- The findings agree in everything but what is said. -/
def SameButMessage (f g : Finding) : Prop :=
  g = { f with message := g.message }

/-- The findings agree in everything but how serious they are. -/
def SameButSeverity (f g : Finding) : Prop :=
  g = { f with severity := g.severity }

/-- A message without the note about an ignored base class, if it ends with one. -/
def withoutNote (message : String) : String :=
  if Text.endsWith message ignoredBaseNote then
    String.ofList (message.toList.take (message.length - ignoredBaseNote.length))
  else message

theorem withoutNote_append (text : String) : withoutNote (text ++ ignoredBaseNote) = text := by
  have hends : Text.endsWith (text ++ ignoredBaseNote) ignoredBaseNote = true := by
    rw [Text.endsWith, List.isSuffixOf_iff_suffix, String.toList_append]
    exact List.suffix_append _ _
  rw [withoutNote, if_pos hends, String.toList_append, String.length_append, Nat.add_sub_cancel,
    ← String.length_toList, List.take_left, String.ofList_toList]

/-- A description names the kind of file at its end, so it does not end with the note. -/
theorem withoutNote_describe (ctx : CheckContext) (kind : String) (s : Subject) :
    withoutNote (describe ctx kind s) = describe ctx kind s := by
  have hends : ∀ text file : String, file.length ≤ ignoredBaseNote.length →
      ¬ file.toList <:+ ignoredBaseNote.toList →
        ¬ Text.endsWith (text ++ file) ignoredBaseNote = true := by
    intro text file hlength hnot hsuffix
    rw [Text.endsWith, List.isSuffixOf_iff_suffix, String.toList_append] at hsuffix
    refine hnot (List.suffix_of_suffix_length_le (List.suffix_append _ _) hsuffix ?_)
    rwa [String.length_toList, String.length_toList]
  unfold withoutNote describe
  by_cases himplementation : ctx.unit.inImplementationFile s.position = true
  · rw [if_pos himplementation, if_neg (hends _ _ (by decide) (by decide))]
  · rw [if_neg himplementation, if_neg (hends _ _ (by decide) (by decide))]

/-- The word for what an item is about. -/
def Item.kind (i : Item) : String :=
  match i.tag with
  | .classLike _ => "class"
  | .enumeration _ => "enum"

theorem classFinding_message (pinned : Option Severity) (ctx : CheckContext) (s : Subject) :
    (classFinding pinned ctx s).message =
      describe ctx "class" s ++ if ctx.hasIgnoredBase s.decl then ignoredBaseNote else "" := rfl

theorem enumerationFinding_message (pinned : Option Severity) (ctx : CheckContext) (s : Subject) :
    (enumerationFinding pinned ctx s).message = describe ctx "enum" s := rfl

/-- Without the note, the message is the description. -/
theorem Item.withoutNote_message (ctx : CheckContext) (i : Item) :
    withoutNote (i.finding ctx).message = describe ctx i.kind i.subject := by
  cases htag : i.tag with
  | classLike d =>
    simp only [finding, kind, htag, classFinding_message]
    by_cases hbase : ctx.hasIgnoredBase i.subject.decl = true
    · rw [if_pos hbase, withoutNote_append]
    · rw [if_neg hbase, String.append_empty, withoutNote_describe]
  | enumeration d =>
    simp only [finding, kind, htag, enumerationFinding_message, withoutNote_describe]

/-- The severity of a finding is the pinned one, or else what the options say. -/
theorem Item.severity_finding (ctx : CheckContext) (i : Item) :
    (i.finding ctx).severity = i.pinned.getD ctx.options.diagnosticLevel := by
  unfold finding
  cases i.tag <;> rfl

/-- Base classes and the way to show namespaces come into the message only. -/
theorem Item.sameButMessage (u : SourceUnit) (p p' : Policy) (o : Options) (mode : NamespaceMode)
    (i : Item) :
    SameButMessage (i.finding ⟨u, p, o⟩) (i.finding ⟨u, p', { o with namespaceMode := mode }⟩) := by
  unfold SameButMessage finding
  cases i.tag <;> rfl

theorem Item.sameButSeverity (u : SourceUnit) (p : Policy) (o : Options) (w : Bool) (i : Item) :
    SameButSeverity (i.finding ⟨u, p, o⟩) (i.finding ⟨u, p, { o with warningsAsErrors := w }⟩) := by
  unfold SameButSeverity finding
  cases i.tag <;> rfl

/-! ## The three settings -/

/-- Each of three settings influences one part of the findings of zone reports, and neither
decisions nor counts nor the order of the findings. With other ignored base classes, messages differ
by the note about them; if findings are to be errors, or no longer, findings without a severity of
their own have another one, which is told by the items of the agenda; with another way to show
namespaces, messages differ. -/
theorem report_influences (p : Policy) (o : Options) (pins : List (Option Severity))
    (real : RealPath) (u : SourceUnit) (ds : List Nat) (bases : List String) (w : Bool)
    (mode : NamespaceMode) :
    (∀ d, (checker { p with bases := bases } o pins).triage real u d =
      (checker p o pins).triage real u d ∧
      (checker p { o with warningsAsErrors := w } pins).triage real u d =
        (checker p o pins).triage real u d ∧
      (checker p { o with namespaceMode := mode } pins).triage real u d =
        (checker p o pins).triage real u d) ∧
    ((report p o pins real u ds).SameCounts (report { p with bases := bases } o pins real u ds) ∧
      List.Forall₂ (fun f g => SameButMessage f g ∧ withoutNote g.message = withoutNote f.message)
        (report p o pins real u ds).findings
          (report { p with bases := bases } o pins real u ds).findings) ∧
    ((report p o pins real u ds).SameCounts
      (report p { o with warningsAsErrors := w } pins real u ds) ∧
      List.Forall₂ SameButSeverity
        (report p o pins real u ds).findings
          (report p { o with warningsAsErrors := w } pins real u ds).findings ∧
      (report p o pins real u ds).findings =
        (agenda p o pins real u ds).map (Item.finding ⟨u, p, o⟩) ∧
      (report p { o with warningsAsErrors := w } pins real u ds).findings =
        (agenda p o pins real u ds).map (Item.finding ⟨u, p, { o with warningsAsErrors := w }⟩) ∧
      ∀ i ∈ agenda p o pins real u ds, i.pinned ∈ pins ∧
        (i.finding ⟨u, p, o⟩).severity =
          i.pinned.getD (if o.warningsAsErrors then .error else .warning) ∧
        (i.finding ⟨u, p, { o with warningsAsErrors := w }⟩).severity =
          i.pinned.getD (if w then .error else .warning)) ∧
    ((report p o pins real u ds).SameCounts
      (report p { o with namespaceMode := mode } pins real u ds) ∧
      List.Forall₂ SameButMessage
        (report p o pins real u ds).findings
          (report p { o with namespaceMode := mode } pins real u ds).findings) := by
  have hbases : DecideAlike p o { p with bases := bases } o := ⟨rfl, rfl, rfl⟩
  have herrors : DecideAlike p o p { o with warningsAsErrors := w } := ⟨rfl, rfl, rfl⟩
  have hmode : DecideAlike p o p { o with namespaceMode := mode } := ⟨rfl, rfl, rfl⟩
  refine ⟨fun d => ⟨?_, ?_, ?_⟩, ⟨?_, ?_⟩, ⟨?_, ?_, ?_, ?_, fun i hi => ⟨?_, ?_, ?_⟩⟩, ⟨?_, ?_⟩⟩
  · exact triage_checker_congr hbases pins real u d
  · exact triage_checker_congr herrors pins real u d
  · exact triage_checker_congr hmode pins real u d
  · exact report_sameCounts hbases pins real u ds
  · refine forall₂_findings hbases pins real u ds fun i => ⟨?_, ?_⟩
    · exact i.sameButMessage u p _ o o.namespaceMode
    · -- The description does not look at the base classes.
      rw [i.withoutNote_message, i.withoutNote_message]
      rfl
  · exact report_sameCounts herrors pins real u ds
  · exact forall₂_findings herrors pins real u ds fun i => i.sameButSeverity u p o w
  · exact findings_eq_map_agenda p o pins real u ds
  · rw [findings_eq_map_agenda, agenda_congr herrors]
  · exact pinned_mem_of_mem_agenda p o pins real u hi
  · exact i.severity_finding _
  · exact i.severity_finding _
  · exact report_sameCounts hmode pins real u ds
  · exact forall₂_findings hmode pins real u ds fun i => i.sameButMessage u p p o mode

end ZoneReport

end StyleZones

import StyleZones.Check.ZoneReport
import StyleZones.Proofs.Check.Run

/-!
# The findings of zone reports

A checker may hold several zone reports, each with a severity of its own or without one. What they
find about a declaration is laid out first as a list of items, which depends on the decision about
the declaration and on nothing else, and then written down item by item
(`ZoneReport.checkTag_eq_map`).

A run over a list of declarations is laid out in the same way: its items are sorted by location into
an agenda, and the findings are what is said about the items of the agenda
(`ZoneReport.findings_eq_map_agenda`).
-/

set_option autoImplicit false

namespace StyleZones.ZoneReport

/-- What one zone report has to say something about. -/
structure Item where
  /-- The severity of the report, if it has one of its own. -/
  pinned : Option Severity
  /-- The zone of the declaration. -/
  zone : Zone
  /-- The position of the declaration. -/
  position : Nat
  /-- The declaration. -/
  tag : Tag
  deriving DecidableEq, Repr

namespace Item

/-- The declaration as a subject. -/
def subject (i : Item) : Subject :=
  ⟨i.zone, i.position, i.tag.decl⟩

/-- What is said. -/
def finding (ctx : CheckContext) (i : Item) : Finding :=
  match i.tag with
  | .classLike _ => classFinding i.pinned ctx i.subject
  | .enumeration _ => enumerationFinding i.pinned ctx i.subject

end Item

/-- The items about a declaration of which it has been decided what becomes of it. -/
def items (pins : List (Option Severity)) : Disposition → List Item
  | .skipped _ => []
  | .forward zone position tag => pins.map fun pinned => ⟨pinned, zone, position, tag⟩

/-- The checker that holds zone reports with the given severities, and no other checks. -/
def checker (p : Policy) (o : Options) (pins : List (Option Severity)) : Checker :=
  ⟨p, o, pins.map check⟩

variable (p : Policy) (o : Options) (pins : List (Option Severity)) (real : RealPath)
  (u : SourceUnit)

/-- The findings of zone reports about a declaration are what is said about the items. -/
theorem checkTag_eq_map (d : Nat) :
    (checker p o pins).checkTag real u d =
      (items pins ((checker p o pins).triage real u d)).map (Item.finding ⟨u, p, o⟩) := by
  rw [Checker.checkTag_eq_flatMap]
  cases (checker p o pins).triage real u d with
  | skipped reason => simp [Check.findings, items]
  | forward zone position tag =>
    have hcheck : ∀ pinned, (check pinned).findings ⟨u, p, o⟩ (.forward zone position tag) =
        [Item.finding ⟨u, p, o⟩ ⟨pinned, zone, position, tag⟩] := by
      intro pinned
      cases tag <;> rfl
    have hchecks :
        (pins.map check).flatMap (fun k => k.findings ⟨u, p, o⟩ (.forward zone position tag)) =
        pins.map fun pinned => Item.finding ⟨u, p, o⟩ ⟨pinned, zone, position, tag⟩ := by
      rw [List.flatMap_map]
      simp only [hcheck]
      exact List.flatMap_pure_eq_map _ _
    rw [items, List.map_map]
    exact hchecks

/-- The report of zone reports about a list of declarations. -/
def report (ds : List Nat) : Report :=
  (checker p o pins).checkDecls real u ds

/-- The items of a run in the order of their findings: by location, and at one place in the order of
the declarations, and for one declaration in that of the zone reports. -/
def agenda (ds : List Nat) : List Item :=
  (ds.flatMap fun d => items pins ((checker p o pins).triage real u d)).mergeSort fun i j =>
    (CheckContext.locationOf ⟨u, p, o⟩ i.position).notAfter
      (CheckContext.locationOf ⟨u, p, o⟩ j.position)

theorem Item.location_finding (i : Item) :
    (i.finding ⟨u, p, o⟩).location = CheckContext.locationOf ⟨u, p, o⟩ i.position := by
  unfold finding
  cases i.tag <;> rfl

/-- The findings of a run are what is said about the items of its agenda. -/
theorem findings_eq_map_agenda (ds : List Nat) :
    (report p o pins real u ds).findings =
      (agenda p o pins real u ds).map (Item.finding ⟨u, p, o⟩) := by
  have hgathered : ((checker p o pins).gathered real u ds).findings =
      (ds.flatMap fun d => items pins ((checker p o pins).triage real u d)).map
        (Item.finding ⟨u, p, o⟩) := by
    have htags : (checker p o pins).checkTag real u = fun d =>
        (items pins ((checker p o pins).triage real u d)).map (Item.finding ⟨u, p, o⟩) :=
      funext fun d => checkTag_eq_map p o pins real u d
    rw [List.map_flatMap, ← htags]
    rfl
  rw [report, Checker.checkDecls_eq_sorted, Report.sorted, hgathered, agenda]
  -- Sorting the findings is sorting the items, because a finding is reported where its item stands.
  refine (List.map_mergeSort fun i _ j _ => ?_).symm
  rw [Item.location_finding, Item.location_finding]

theorem pinned_mem_of_mem_agenda {ds : List Nat} {i : Item} (hi : i ∈ agenda p o pins real u ds) :
    i.pinned ∈ pins := by
  rw [agenda, List.mem_mergeSort, List.mem_flatMap] at hi
  obtain ⟨d, -, hitem⟩ := hi
  cases htriage : (checker p o pins).triage real u d with
  | skipped reason =>
    rw [htriage] at hitem
    cases hitem
  | forward zone position tag =>
    rw [htriage] at hitem
    obtain ⟨pinned, hpinned, rfl⟩ := List.mem_map.1 hitem
    exact hpinned

end StyleZones.ZoneReport

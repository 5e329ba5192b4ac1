import Mathlib.Data.List.Nodup
import StyleZones.Proofs.Check.Influence
import StyleZones.Proofs.Check.Triage
import StyleZones.Proofs.Unit.WellFormed

/-!
# Verdicts on several units

Several units are checked one by one, and the reports about them are put one after another
(`Checker.merged`). Where the checker makes one zone report, each declaration that is forwarded has
one finding (`ZoneReport.forall₂_isAbout`), and how severe it is depends on the options alone.
`ZoneReport.Verdict` says what such a report has in it and whether a run fails for it;
`ZoneReport.verdict_merged` is that this is so.
-/

set_option autoImplicit false

namespace StyleZones

namespace Checker

variable (c : Checker) (real : RealPath) (units : List SourceUnit)

/-- The reports about units, one after another. -/
def merged : Report :=
  (units.map (c.checkUnit real)).foldr Report.append .empty

theorem merged_findings :
    (c.merged real units).findings =
      units.flatMap fun u => (c.checkDecls real u u.tags).findings := by
  induction units with
  | nil => rfl
  | cons u units ih =>
    rw [List.flatMap_cons, ← ih]
    rfl

/-- What adds up when reports are put one after another is a sum over the units. -/
theorem merged_count {count : Report → UInt64} (hempty : count .empty = 0)
    (happend : ∀ r s, count (r.append s) = count r + count s) :
    count (c.merged real units) =
      (units.map fun u => count (c.checkDecls real u u.tags)).foldr (· + ·) 0 := by
  induction units with
  | nil => exact hempty
  | cons u units ih =>
    rw [List.map_cons, List.foldr_cons, ← ih]
    exact happend _ _

theorem mem_merged_findings {f : Finding} :
    f ∈ (c.merged real units).findings ↔ ∃ u ∈ units, ∃ d ∈ u.tags, f ∈ c.checkTag real u d := by
  simp only [merged_findings, List.mem_flatMap, (c.checkDecls_stableSort real _ _).perm.mem_iff]

end Checker

/-! ## The findings of one zone report -/

namespace ZoneReport

/-- The finding is about the declaration: it says its zone, its name and where it stands. -/
def IsAbout (c : Checker) (real : RealPath) (u : SourceUnit) (d : Nat) (f : Finding) : Prop :=
  ∃ position tag, c.triage real u d = .forward f.zone position tag ∧
    f.declaration = u.qualifiedName d ∧ f.location = (c.context u).locationOf position

variable (p : Policy) (o : Options) (real : RealPath) (u : SourceUnit)

/-- One zone report has one finding about a declaration that is forwarded. -/
theorem checkTag_of_forward {d : Nat} {zone : Zone} {position : Nat} {tag : Tag}
    (h : (checker p o [none]).triage real u d = .forward zone position tag) :
    ∃ f, (checker p o [none]).checkTag real u d = [f] ∧ IsAbout (checker p o [none]) real u d f ∧
      f.severity = o.diagnosticLevel := by
  obtain ⟨hdecl, -⟩ := Tag.placed_spec (Checker.placed_of_triage_forward _ real h)
  refine ⟨Item.finding ⟨u, p, o⟩ ⟨none, zone, position, tag⟩, ?_, ⟨position, tag, ?_, ?_, ?_⟩, ?_⟩
  · rw [checkTag_eq_map, h]
    rfl
  · rw [h]
    cases tag <;> rfl
  · rw [← hdecl]
    cases tag <;> rfl
  · exact Item.location_finding p o u _
  · exact Item.severity_finding _ _

theorem checkTag_of_skipped {d : Nat} {reason : SkipReason}
    (h : (checker p o [none]).triage real u d = .skipped reason) :
    (checker p o [none]).checkTag real u d = [] := by
  rw [Checker.checkTag, h]

/-- Of the declarations of a list, those that are forwarded have one finding each, in the same
order. -/
theorem forall₂_isAbout (ds : List Nat) :
    List.Forall₂ (IsAbout (checker p o [none]) real u)
      (ds.filter ((checker p o [none]).forwards real u))
      (ds.flatMap ((checker p o [none]).checkTag real u)) := by
  induction ds with
  | nil => exact .nil
  | cons d ds ih =>
    rw [List.flatMap_cons, List.filter_cons, Checker.forwards]
    cases h : (checker p o [none]).triage real u d with
    | skipped reason =>
      rw [checkTag_of_skipped p o real u h]
      exact ih
    | forward zone position tag =>
      obtain ⟨f, hf, habout, -⟩ := checkTag_of_forward p o real u h
      rw [hf]
      exact .cons habout ih

/-- Where there is a finding the declaration is forwarded, and the options say how severe it is. -/
theorem forwards_of_mem_checkTag {d : Nat} {f : Finding}
    (hf : f ∈ (checker p o [none]).checkTag real u d) :
    (checker p o [none]).forwards real u d = true ∧ f.severity = o.diagnosticLevel := by
  rw [Checker.forwards]
  cases h : (checker p o [none]).triage real u d with
  | skipped reason =>
    rw [checkTag_of_skipped p o real u h] at hf
    cases hf
  | forward zone position tag =>
    obtain ⟨g, hg, -, hseverity⟩ := checkTag_of_forward p o real u h
    rw [hg, List.mem_singleton] at hf
    rw [hf]
    exact ⟨rfl, hseverity⟩

/-- A declaration that is forwarded is a class or an enumeration of the unit, and has a finding. -/
theorem isTag_of_forwards {d : Nat} (h : (checker p o [none]).forwards real u d = true) :
    u.isTag d = true ∧ ∃ f, f ∈ (checker p o [none]).checkTag real u d := by
  rw [Checker.forwards] at h
  cases htriage : (checker p o [none]).triage real u d with
  | skipped reason =>
    rw [htriage] at h
    cases h
  | forward zone position tag =>
    obtain ⟨f, hf, -⟩ := checkTag_of_forward p o real u htriage
    refine ⟨Tag.isTag_of_placed (Checker.placed_of_triage_forward _ real htriage), f, ?_⟩
    rw [hf]
    exact List.mem_singleton_self f

/-! ## The verdict -/

/-- What a check says about units, and whether the run fails for it. Where findings are errors,
`strict` is set. What is said about each declaration of a unit is about units with at most 2^32 of
them, since beyond the last word handles no longer tell declarations apart. -/
structure Verdict (c : Checker) (strict : Bool) (real : RealPath) (units : List SourceUnit)
    (r : Report) (status : Nat) : Prop where
  /-- The findings about the units stand one after another as they are. -/
  findings : r.findings = units.flatMap fun u => (c.checkDecls real u u.tags).findings
  /-- As many declarations were seen as in the units together. -/
  seen : r.seen = (units.map fun u => (c.checkDecls real u u.tags).seen).foldr (· + ·) 0
  /-- As many declarations were checked as in the units together. -/
  checked : r.checked = (units.map fun u => (c.checkDecls real u u.tags).checked).foldr (· + ·) 0
  /-- The findings about a unit are sorted by location. -/
  sorted : ∀ u ∈ units, (c.checkDecls real u u.tags).findings.Pairwise
    fun f g => f.location.key ≤ g.location.key
  /-- They are one for each declaration of the unit that is forwarded. -/
  once : ∀ u ∈ units, u.Addressable → ∃ ds fs, ds.Nodup ∧
    (∀ d, d ∈ ds ↔ c.forwards real u d = true) ∧ List.Forall₂ (IsAbout c real u) ds fs ∧
    (c.checkDecls real u u.tags).findings.Perm fs
  /-- All findings are equally severe. -/
  severity : ∀ f ∈ r.findings, f.severity = if strict then .error else .warning
  /-- The run fails or succeeds. -/
  decided : status = 1 ∨ status = 0
  /-- It fails exactly if findings are errors and some declaration is forwarded. -/
  fails : (∀ u ∈ units, u.Addressable) →
    (status = 1 ↔ strict = true ∧ ∃ u ∈ units, ∃ d, c.forwards real u d = true)

variable (units : List SourceUnit)

theorem severity_of_mem_merged {f : Finding}
    (hf : f ∈ ((checker p o [none]).merged real units).findings) :
    f.severity = if o.warningsAsErrors then .error else .warning := by
  obtain ⟨u, -, d, -, hf⟩ := (Checker.mem_merged_findings _ real units).1 hf
  exact (forwards_of_mem_checkTag p o real u hf).2

/-- There are errors exactly if findings are errors and there is something to find. -/
theorem hasErrors_merged_iff (hunits : ∀ u ∈ units, u.Addressable) :
    ((checker p o [none]).merged real units).hasErrors = true ↔
      o.warningsAsErrors = true ∧
        ∃ u ∈ units, ∃ d, (checker p o [none]).forwards real u d = true := by
  rw [Report.hasErrors, List.any_eq_true]
  constructor
  · rintro ⟨f, hf, herror⟩
    have hseverity := severity_of_mem_merged p o real units hf
    rw [of_decide_eq_true herror] at hseverity
    obtain ⟨u, hu, d, -, hf⟩ := (Checker.mem_merged_findings _ real units).1 hf
    refine ⟨?_, u, hu, d, (forwards_of_mem_checkTag p o real u hf).1⟩
    by_contra hnot
    rw [if_neg hnot] at hseverity
    cases hseverity
  · rintro ⟨hstrict, u, hu, d, hd⟩
    obtain ⟨htag, f, hf⟩ := isTag_of_forwards p o real u hd
    have hf : f ∈ ((checker p o [none]).merged real units).findings :=
      (Checker.mem_merged_findings _ real units).2 ⟨u, hu, d,
        ((hunits u hu).mem_tags_iff d).2 htag, hf⟩
    refine ⟨f, hf, decide_eq_true ?_⟩
    rw [severity_of_mem_merged p o real units hf, if_pos hstrict]

/-- The verdict on units is what the report about them says, and the run fails if that has
errors. -/
theorem verdict_merged :
    Verdict (checker p o [none]) o.warningsAsErrors real units
      ((checker p o [none]).merged real units)
      (if ((checker p o [none]).merged real units).hasErrors then 1 else 0) where
  findings := Checker.merged_findings _ real units
  seen := Checker.merged_count _ real units rfl fun _ _ => rfl
  checked := Checker.merged_count _ real units rfl fun _ _ => rfl
  sorted := fun u _ => (Checker.checkDecls_stableSort _ real u u.tags).sorted
  once := by
    intro u _ hu
    -- Whatever would be forwarded is a tag, so that nothing is missed by looking at the tags only.
    refine ⟨u.tags.filter ((checker p o [none]).forwards real u),
      u.tags.flatMap ((checker p o [none]).checkTag real u), ?_, ?_, ?_, ?_⟩
    · exact hu.nodup_tags.filter _
    · intro d
      rw [List.mem_filter, and_iff_right_iff_imp, hu.mem_tags_iff]
      intro hd
      exact (isTag_of_forwards p o real u hd).1
    · exact forall₂_isAbout p o real u u.tags
    · exact (Checker.checkDecls_stableSort _ real u u.tags).perm
  severity := fun f hf => severity_of_mem_merged p o real units hf
  decided := by
    split_ifs
    · exact Or.inl rfl
    · exact Or.inr rfl
  fails := by
    intro hunits
    rw [← hasErrors_merged_iff p o real units hunits]
    split_ifs with h <;> simp [h]

end ZoneReport

end StyleZones

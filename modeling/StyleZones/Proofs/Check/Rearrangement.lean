import StyleZones.Check.ZoneReport
import StyleZones.Policy.Chromium
import StyleZones.Proofs.Check.Run
import StyleZones.Unit.Edit

/-!
# Runs in parts and in another order

Two ways of going through the same declarations are compared with one run over the whole list.

* The list is cut into batches. Each batch is checked and sorted by itself, and the reports are put
  one after another. Sorting what comes of it gives the report of the whole run
  (`Checker.checkDecls_splits`): sorting the parts beforehand does not disturb findings at one
  place.
* The list is rearranged. The numbers stay the same, and the findings are rearranged
  (`Checker.checkDecls_rearranged`). They even stay in the same order, if every check reports a
  declaration where it stands and no two declarations stand at one place.
-/

set_option autoImplicit false

namespace StyleZones

/-! ## Reports with the same findings -/

namespace Report

/-- The reports agree in every number that is drawn from them. -/
structure SameTotals (r r' : Report) : Prop where
  /-- As many declarations were seen. -/
  seen : r'.seen = r.seen
  /-- As many declarations were checked. -/
  checked : r'.checked = r.checked
  /-- As many findings have each severity. -/
  count : ∀ severity, r'.count severity = r.count severity
  /-- Both have errors, or neither. -/
  hasErrors : r'.hasErrors = r.hasErrors
  /-- The same is said about the run in one line. -/
  summary : r'.summary = r.summary

/-- Only which findings there are and the two counts have a part in the numbers. -/
theorem sameTotals_of_perm {r r' : Report} (hseen : r'.seen = r.seen)
    (hchecked : r'.checked = r.checked) (hperm : r'.findings.Perm r.findings) :
    r.SameTotals r' := by
  have hcount : ∀ severity, r'.count severity = r.count severity := by
    intro severity
    exact hperm.countP_eq _
  refine ⟨hseen, hchecked, hcount, hperm.any_eq, ?_⟩
  unfold summary
  rw [hcount, hcount, hcount, hseen, hchecked]

/-- The second report is the first with its findings in the order of their locations, those at one
place in the order in which they were. -/
structure SortsTo (m r : Report) : Prop extends SameTotals m r where
  /-- The findings are the stable sort by location. -/
  findings : StableSort (fun f : Finding => f.location.key) m.findings r.findings

theorem sortsTo_sorted (m : Report) : m.SortsTo m.sorted where
  toSameTotals := sameTotals_of_perm rfl rfl m.sorted_stableSort.perm
  findings := m.sorted_stableSort

theorem sorted_sorted (r : Report) : r.sorted.sorted = r.sorted := by
  have hsame : r.sorted.sorted.findings = r.sorted.findings :=
    eq_of_ties_eq r.sorted.sorted_stableSort.sorted r.sorted_stableSort.sorted
      r.sorted.sorted_stableSort.ties
  exact congrArg (fun fs => { r with findings := fs }) hsame

/-- Two parts may be sorted before the whole is sorted. -/
theorem sorted_append_sorted (a b : Report) :
    (a.sorted.append b.sorted).sorted = (a.append b).sorted := by
  have hfindings : (a.sorted.append b.sorted).sorted.findings = (a.append b).sorted.findings := by
    have hparts :
        StableSort (fun f : Finding => f.location.key) (a.sorted.findings ++ b.sorted.findings)
        (a.append b).sorted.findings :=
      (a.sorted_stableSort.append_iff b.sorted_stableSort).2 (a.append b).sorted_stableSort
    exact (a.sorted.append b.sorted).sorted_stableSort.unique hparts
  exact congrArg (fun fs => { a.append b with findings := fs }) hfindings

/-- What one report after another is sorted to depends on what each of them is sorted to. -/
theorem sorted_append_congr {a a' b b' : Report} (ha : a.sorted = a'.sorted)
    (hb : b.sorted = b'.sorted) :
    (a.append b).sorted = (a'.append b').sorted := by
  rw [← sorted_append_sorted a b, ha, hb, sorted_append_sorted]

end Report

/-! ## Batches -/

namespace Checker

variable (c : Checker) (real : RealPath) (u : SourceUnit)

/-- The report `r` and then the reports about batches of declarations, each batch checked by
itself. -/
def inBatches (r : Report) (batches : List (List Nat)) : Report :=
  batches.foldl (fun r ds => r.append (c.checkDecls real u ds)) r

/-- A run has been sorted already, which another sort does not change. -/
theorem sorted_checkDecls (ds : List Nat) :
    (c.checkDecls real u ds).sorted = (c.gathered real u ds).sorted := by
  rw [checkDecls_eq_sorted, Report.sorted_sorted]

/-- Up to sorting, checking in batches gathers what the batches give when nothing is sorted in
between. -/
theorem sorted_inBatches (batches : List (List Nat)) {r s : Report} (h : r.sorted = s.sorted) :
    (c.inBatches real u r batches).sorted =
      (s.append (c.gathered real u batches.flatten)).sorted := by
  induction batches generalizing r s with
  | nil =>
    rw [List.flatten_nil, gathered_nil, Report.append_empty]
    exact h
  | cons ds batches ih =>
    -- The batch was sorted on its own, which the next sort makes good.
    have hstep :
        (r.append (c.checkDecls real u ds)).sorted = (s.append (c.gathered real u ds)).sorted :=
      Report.sorted_append_congr h (c.sorted_checkDecls real u ds)
    rw [List.flatten_cons, gathered_append, ← Report.append_assoc]
    exact ih hstep

/-- The run over a list that begins with `xs` is the sorted report of a run over `xs` and further
batches. -/
theorem checkDecls_eq_sorted_inBatches (xs : List Nat) (batches : List (List Nat)) :
    c.checkDecls real u (xs ++ batches.flatten) =
      (c.inBatches real u (c.checkDecls real u xs) batches).sorted := by
  rw [checkDecls_eq_sorted, gathered_append,
    c.sorted_inBatches real u batches (c.sorted_checkDecls real u xs)]

/-- A list of declarations may be checked in parts. The reports about two parts, one after the
other, agree with the report about the whole in all numbers, and the findings of the whole are the
stable sort of theirs by location. So it is for any number of batches. -/
theorem checkDecls_splits (xs ys : List Nat) (batches : List (List Nat)) :
    ((c.checkDecls real u xs).append (c.checkDecls real u ys)).SortsTo
      (c.checkDecls real u (xs ++ ys)) ∧
      (c.inBatches real u (c.checkDecls real u xs) batches).SortsTo
        (c.checkDecls real u (xs ++ batches.flatten)) := by
  constructor
  · have hwhole := c.checkDecls_eq_sorted_inBatches real u xs [ys]
    rw [List.flatten_singleton] at hwhole
    rw [hwhole]
    exact Report.sortsTo_sorted _
  · rw [checkDecls_eq_sorted_inBatches]
    exact Report.sortsTo_sorted _

end Checker

/-! ## Another order -/

/-- The check reports every declaration at the declaration's own position. -/
def Check.InPlace (k : Check) : Prop :=
  ∀ ctx s, ∀ f ∈ k.onClass ctx s ++ k.onEnumeration ctx s, f.location = ctx.locationOf s.position

theorem ZoneReport.check_inPlace (pinned : Option Severity) :
    (ZoneReport.check pinned).InPlace := by
  intro ctx s f hf
  simp only [ZoneReport.check, List.mem_append, List.mem_singleton] at hf
  rcases hf with rfl | rfl
  · rfl
  · rfl

theorem Check.InPlace.location_eq {k : Check} (h : k.InPlace) {ctx : CheckContext} {zone : Zone}
    {position : Nat} {tag : Tag} {f : Finding}
    (hf : f ∈ k.findings ctx (.forward zone position tag)) :
    f.location = ctx.locationOf position := by
  cases tag with
  | classLike d => exact h ctx ⟨zone, position, d⟩ f (List.mem_append_left _ hf)
  | enumeration d => exact h ctx ⟨zone, position, d⟩ f (List.mem_append_right _ hf)

namespace Checker

variable (c : Checker) (real : RealPath) (u : SourceUnit)

/-- The presumed location of a declaration that is handed to the checks; where none is presumed, the
unknown one. -/
def forwardedAt? (d : Nat) : Option Location :=
  match c.triage real u d with
  | .skipped _ => none
  | .forward _ position _ => some ((c.context u).locationOf position)

/-- Checks that report declarations where they stand report a declaration at its location. -/
theorem forwardedAt?_of_mem_checkTag (hchecks : ∀ k ∈ c.checks, k.InPlace) {d : Nat} {f : Finding}
    (hf : f ∈ c.checkTag real u d) : c.forwardedAt? real u d = some f.location := by
  rw [checkTag_eq_flatMap, List.mem_flatMap] at hf
  obtain ⟨k, hk, hf⟩ := hf
  unfold forwardedAt?
  cases htriage : c.triage real u d with
  | skipped reason =>
    rw [htriage] at hf
    cases hf
  | forward zone position tag =>
    rw [htriage] at hf
    rw [(hchecks k hk).location_eq hf]

variable {xs ys : List Nat} (hperm : xs.Perm ys)
include hperm

/-- A rearranged list gives the same findings in some order. -/
theorem findings_perm :
    (c.checkDecls real u xs).findings.Perm (c.checkDecls real u ys).findings := by
  have hxs := (c.checkDecls_stableSort real u xs).perm
  have hys := (c.checkDecls_stableSort real u ys).perm
  exact (hxs.trans (hperm.flatMap_right _)).trans hys.symm

/-- Where no two declarations of the list stand at one place, its order leaves no trace. -/
theorem findings_eq_of_perm (hchecks : ∀ k ∈ c.checks, k.InPlace)
    (hplaces : ∀ d ∈ xs, ∀ e ∈ xs, ∀ l ∈ c.forwardedAt? real u d, ∀ l' ∈ c.forwardedAt? real u e,
      l.samePlace l' = true → d = e) :
    (c.checkDecls real u xs).findings = (c.checkDecls real u ys).findings := by
  have hkeys : ∀ d ∈ xs, ∀ e ∈ xs, ∀ f ∈ c.checkTag real u d, ∀ g ∈ c.checkTag real u e,
      f.location.key = g.location.key → d = e := by
    intro d hd e he f hf g hg hkey
    exact hplaces d hd e he f.location (c.forwardedAt?_of_mem_checkTag real u hchecks hf)
      g.location (c.forwardedAt?_of_mem_checkTag real u hchecks hg)
        ((Location.key_eq_iff _ _).1 hkey)
  -- The findings about `xs` are a stable sort of what `ys` gives, and there is only one.
  have hsort := (c.checkDecls_stableSort real u xs).flatMap_perm hperm hkeys
  exact hsort.unique (c.checkDecls_stableSort real u ys)

/-- The order in which declarations are gone through matters little. A rearranged list gives the
same numbers and the same findings in some order, whatever the checks. If each check reports
declarations where they stand, as zone reports do, and no two different declarations that are handed
to the checks stand at one place, then the findings come in the same order, too. -/
theorem checkDecls_rearranged :
    (c.checkDecls real u xs).SameTotals (c.checkDecls real u ys) ∧
      (c.checkDecls real u xs).findings.Perm (c.checkDecls real u ys).findings ∧
      (∀ pinned, (ZoneReport.check pinned).InPlace) ∧
      ((∀ k ∈ c.checks, k.InPlace) →
        (∀ d ∈ xs, ∀ e ∈ xs, ∀ l ∈ c.forwardedAt? real u d, ∀ l' ∈ c.forwardedAt? real u e,
          l.samePlace l' = true → d = e) →
        (c.checkDecls real u xs).findings = (c.checkDecls real u ys).findings) := by
  have hfindings := c.findings_perm real u hperm
  refine ⟨?_, hfindings, ZoneReport.check_inPlace, c.findings_eq_of_perm real u hperm⟩
  apply Report.sameTotals_of_perm
  · rw [checkDecls_eq_sorted, checkDecls_eq_sorted]
    exact congrArg UInt64.ofNat hperm.symm.length_eq
  · rw [checkDecls_eq_sorted, checkDecls_eq_sorted]
    exact congrArg UInt64.ofNat (hperm.symm.countP_eq _)
  · exact hfindings.symm

omit hperm

/-- Two classes on different lines of one file, and an enumeration of another project. -/
def scatteredUnit : SourceUnit :=
  SourceUnit.empty.applyAll [.addFile "src/a.h" false, .addFile "src/v8/b.h" false,
    .addPosition 0 7 1, .addPosition 0 3 1, .addPosition 1 7 1, .addRecord 0 "Late" 0,
    .addRecord 0 "Early" 1,
    .addEnumeration 0 "Foreign" 2]

/-- Two zone reports about these declarations, one of them twice, do not depend on their order. -/
theorem checkDecls_rearranged_scattered :
    [1, 3, 2, 1].Perm [2, 1, 1, 3] ∧
      (checkDecls ⟨.chromium, {},
        [ZoneReport.check none, ZoneReport.check (some .info)]⟩ (fun _ => none)
          scatteredUnit [1, 3, 2, 1]).findings =
        (checkDecls ⟨.chromium, {},
          [ZoneReport.check none, ZoneReport.check (some .info)]⟩ (fun _ => none)
          scatteredUnit [2, 1, 1, 3]).findings := by
  have hperm : [1, 3, 2, 1].Perm [2, 1, 1, 3] := by decide
  obtain ⟨-, -, hzone, hsame⟩ := checkDecls_rearranged
    ⟨.chromium, {}, [ZoneReport.check none, ZoneReport.check (some .info)]⟩
      (fun _ => none) scatteredUnit hperm
  refine ⟨hperm, hsame ?_ (by decide +kernel)⟩
  intro k hk
  simp only [List.mem_cons, List.not_mem_nil, or_false] at hk
  rcases hk with rfl | rfl
  · exact hzone none
  · exact hzone (some .info)

end Checker

end StyleZones

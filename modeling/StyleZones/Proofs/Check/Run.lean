import StyleZones.Check.Checker
import StyleZones.Proofs.Order.Location
import StyleZones.Proofs.Order.StableSort

/-!
# Runs over lists of declarations

A run goes through a list of declarations, counts them, collects findings and sorts what it has
collected. The loop decides about each declaration anew instead of asking `Checker.checkTag`; this
module shows that the two agree, whatever the list.

* One turn of the loop appends the report about one declaration (`Checker.tally_eq_append`), so that
  a whole loop appends what `Checker.gathered` says (`Checker.foldl_tally`).
* `Checker.checkDecls_counts_and_stable_sort` is the outcome: the counts are those of the list, and
  the findings are the stable sort, by location, of the findings about the entries one after the
  other.
-/

set_option autoImplicit false

namespace StyleZones

namespace Report

@[simp] theorem append_empty (r : Report) : r.append empty = r := by
  simp [append, empty]

@[simp] theorem empty_append (r : Report) : empty.append r = r := by
  simp [append, empty]

theorem append_assoc (a b c : Report) : (a.append b).append c = a.append (b.append c) := by
  simp [append, UInt64.add_assoc]

/-- Sorting a report is the stable sort of its findings by location. -/
theorem sorted_stableSort (r : Report) :
    StableSort (fun f : Finding => f.location.key) r.findings r.sorted.findings :=
  stableSort_mergeSort (fun a b : Finding => Location.notAfter_iff a.location b.location) r.findings

end Report

namespace Check

/-- What one check says about a declaration of which it has been decided what becomes of it. -/
def findings (k : Check) (ctx : CheckContext) : Disposition → List Finding
  | .skipped _ => []
  | .forward zone position (.classLike d) => k.onClass ctx ⟨zone, position, d⟩
  | .forward zone position (.enumeration d) => k.onEnumeration ctx ⟨zone, position, d⟩

end Check

namespace Checker

variable (c : Checker) (real : RealPath) (u : SourceUnit)

/-- The findings about a declaration are those of the checks, in the order in which the checks
run. -/
theorem checkTag_eq_flatMap (d : Nat) :
    c.checkTag real u d =
      c.checks.flatMap fun k => k.findings (c.context u) (c.triage real u d) := by
  unfold checkTag
  cases c.triage real u d with
  | skipped reason => simp [Check.findings]
  | forward zone position tag => cases tag <;> rfl

/-! ## The loop -/

/-- The declaration is handed to the checks. -/
def forwards (d : Nat) : Bool :=
  (c.triage real u d).isForward

/-- What a run over a list of declarations has gathered before it sorts. -/
def gathered (ds : List Nat) : Report where
  findings := ds.flatMap (c.checkTag real u)
  seen := UInt64.ofNat ds.length
  checked := UInt64.ofNat (ds.countP (c.forwards real u))

/-- Each turn of the loop appends the report about one declaration. -/
theorem tally_eq_append (r : Report) (d : Nat) :
    c.tally real u r d = r.append (c.gathered real u [d]) := by
  -- The turn and `checkTag` look at the same decision, each in its own way.
  unfold tally gathered checkTag forwards
  cases h : c.triage real u d with
  | skipped reason => simp [Report.append, Disposition.isForward, h]
  | forward zone position tag => simp [Report.append, Disposition.isForward, h]

/-- What two lists give together is what the first gives and then the second. -/
theorem gathered_append (xs ys : List Nat) :
    c.gathered real u (xs ++ ys) = (c.gathered real u xs).append (c.gathered real u ys) := by
  simp [gathered, Report.append, UInt64.ofNat_add]

theorem gathered_nil : c.gathered real u [] = .empty := rfl

/-- The loop appends what the list of declarations gives to the report it starts from. -/
theorem foldl_tally (ds : List Nat) (r : Report) :
    ds.foldl (c.tally real u) r = r.append (c.gathered real u ds) := by
  induction ds generalizing r with
  | nil => rw [List.foldl_nil, gathered_nil, Report.append_empty]
  | cons d ds ih =>
    calc (d :: ds).foldl (c.tally real u) r
        = (c.tally real u r d).append (c.gathered real u ds) := ih _
      _ = (r.append (c.gathered real u [d])).append (c.gathered real u ds) := by
          rw [tally_eq_append]
      _ = r.append (c.gathered real u ([d] ++ ds)) := by
          rw [Report.append_assoc, gathered_append]

theorem checkDecls_eq_sorted (ds : List Nat) :
    c.checkDecls real u ds = (c.gathered real u ds).sorted := by
  rw [checkDecls, foldl_tally, Report.empty_append]

/-! ## The report -/

/-- The findings of a run are the stable sort of the findings about the declarations of the list. -/
theorem checkDecls_stableSort (ds : List Nat) :
    StableSort (fun f : Finding => f.location.key) (ds.flatMap (c.checkTag real u))
      (c.checkDecls real u ds).findings := by
  rw [checkDecls_eq_sorted]
  exact (c.gathered real u ds).sorted_stableSort

/-- The findings of a run at one place come in the order of the declarations, and for one
declaration in the order of the checks. -/
theorem checkDecls_filter_samePlace (ds : List Nat) (l : Location) :
    (c.checkDecls real u ds).findings.filter (·.location.samePlace l) =
      ds.flatMap fun d => c.checks.flatMap fun k =>
        (k.findings (c.context u) (c.triage real u d)).filter (·.location.samePlace l) := by
  have hplace : ∀ f : Finding, f.location.samePlace l = true ↔ f.location.key = l.key :=
    fun f => (Location.key_eq_iff f.location l).symm
  -- Sorting leaves the findings at one place as they were gathered.
  rw [(c.checkDecls_stableSort real u ds).filter_eq hplace, List.filter_flatMap]
  congr 1
  funext d
  rw [checkTag_eq_flatMap, List.filter_flatMap]

/-- A run over any list of declarations sees every entry of the list and checks those that are
forwarded. Its findings are the one list that is the stable sort, by the components of the file, the
line and the column, of the findings about the entries one after the other: a rearrangement of
these, in the order of the locations, and at one place in the order of the declarations and then of
the checks. -/
theorem checkDecls_counts_and_stable_sort (ds : List Nat) :
    (c.checkDecls real u ds).seen = UInt64.ofNat ds.length ∧
      (c.checkDecls real u ds).checked =
        UInt64.ofNat (ds.countP fun d => (c.triage real u d).isForward) ∧
      (∀ fs, StableSort (fun f : Finding => f.location.key) (ds.flatMap (c.checkTag real u)) fs ↔
        fs = (c.checkDecls real u ds).findings) ∧
      (c.checkDecls real u ds).findings.Perm (ds.flatMap (c.checkTag real u)) ∧
      ((c.checkDecls real u ds).findings.Pairwise fun a b => a.location.key ≤ b.location.key) ∧
      ∀ l : Location, (c.checkDecls real u ds).findings.filter (·.location.samePlace l) =
        ds.flatMap fun d => c.checks.flatMap fun k =>
          (k.findings (c.context u) (c.triage real u d)).filter (·.location.samePlace l) := by
  have hsort := c.checkDecls_stableSort real u ds
  refine ⟨?_, ?_, ?_, hsort.perm, hsort.sorted, c.checkDecls_filter_samePlace real u ds⟩
  · rw [checkDecls_eq_sorted]
    rfl
  · rw [checkDecls_eq_sorted]
    rfl
  · intro fs
    constructor
    · intro hfs
      exact hfs.unique hsort
    · rintro rfl
      exact hsort

end Checker

end StyleZones

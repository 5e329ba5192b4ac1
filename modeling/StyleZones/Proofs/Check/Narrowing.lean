import StyleZones.Proofs.Check.Run
import StyleZones.Proofs.Check.Triage
import StyleZones.Proofs.Policy.Growth
import StyleZones.Proofs.Unit.Derivation
import StyleZones.Unit.Edit

/-!
# A larger policy checks less

Two runs are compared that differ in their policies, of which the second extends the first. About
each declaration the second either decides the same, or skips it for a reason that is tried earlier
(`Disposition.Narrows`). Everything else follows: what the second run forwards, the first forwards
as it is, and so a run over a list checks no more than before (`Checker.extend_policy_checks_less`).
-/

set_option autoImplicit false

namespace StyleZones

namespace SkipReason

/-- The place of a reason in the order in which the reasons are tried. -/
def rank : SkipReason → Nat
  | .notATag => 0
  | .thirdParty => 1
  | .ignoredName => 2
  | .matcherSuffix => 3

end SkipReason

namespace Disposition

/-- How far the reasons are tried before the decision. -/
def rank : Disposition → Nat
  | .skipped reason => reason.rank
  | .forward _ _ _ => 4

/-- The decision is the same, or it is to skip for a reason that is tried earlier, though not the
very first: what a declaration is does not change. -/
def Narrows (before after : Disposition) : Prop :=
  after = before ∨ ∃ reason, after = .skipped reason ∧ 0 < reason.rank ∧ reason.rank < before.rank

variable {before after : Disposition}

/-- What is forwarded afterwards was forwarded before, with the same zone, position and kind. -/
theorem Narrows.forward (h : before.Narrows after) {zone : Zone} {position : Nat} {tag : Tag}
    (hafter : after = .forward zone position tag) : before = .forward zone position tag := by
  rcases h with rfl | ⟨reason, hskipped, -⟩
  · exact hafter
  · rw [hskipped] at hafter
    cases hafter

/-- What was skipped stays skipped, for the same reason or one that is tried earlier. -/
theorem Narrows.skipped (h : before.Narrows after) {r : SkipReason}
    (hbefore : before = .skipped r) :
    ∃ r', after = .skipped r' ∧ (r' = r ∨ r'.rank < r.rank) ∧
      (r = .notATag ∨ r = .thirdParty → r' = r) := by
  subst hbefore
  rcases h with rfl | ⟨r', rfl, hpos, hlt⟩
  · exact ⟨r, rfl, Or.inl rfl, fun _ => rfl⟩
  · refine ⟨r', rfl, Or.inr hlt, ?_⟩
    -- Between the first reason and one of the first two there is none.
    rintro (rfl | rfl)
    · exact absurd hlt (Nat.not_lt_zero _)
    · exact absurd hpos (Nat.not_lt.2 (Nat.le_of_lt_succ hlt))

theorem Narrows.isForward (h : before.Narrows after) (hafter : after.isForward = true) :
    before.isForward = true := by
  cases after with
  | skipped reason => cases hafter
  | forward zone position tag =>
    rw [h.forward rfl]
    rfl

end Disposition

/-! ## One declaration -/

theorem Classifier.zoneOfPosition_narrows {p q : Policy} (h : p.Within q) (mode : PathMode)
    (real : RealPath) (u : SourceUnit) (position : Nat) :
    (zoneOfPosition ⟨p, mode, real⟩ u position).Narrows
      (zoneOfPosition ⟨q, mode, real⟩ u position) := by
  unfold zoneOfPosition
  by_cases hheader : u.inSystemHeader position = true
  · rw [if_pos hheader, if_pos hheader]
    exact Or.inl rfl
  · rw [if_neg hheader, if_neg hheader]
    cases u.fileName? position with
    | none => exact Or.inl rfl
    | some name => exact zoneOfName_narrows h mode real name

namespace Checker

/-- With more directories and more names of types, a class or an enumeration is settled as before or
earlier. -/
theorem settle_narrows {p q : Policy} (h : p.Within q) {before after : Zone}
    (hzone : before.Narrows after) (position : Nat) (tag : Tag) (name : String) :
    (settle p before position tag name).Narrows (settle q after position tag name) := by
  rcases hzone with rfl | ⟨rfl, rfl⟩
  · -- In the same zone, the first difference can be that the name is now ignored.
    by_cases hforeign : after = .thirdParty
    · exact Or.inl (by rw [settle, settle, if_pos hforeign, if_pos hforeign])
    by_cases hq : name ∈ q.types
    · by_cases hp : name ∈ p.types
      · exact Or.inl (by rw [settle, settle, if_neg hforeign, if_neg hforeign, if_pos hp,
          if_pos hq])
      · have hlater : SkipReason.rank .ignoredName < (settle p after position tag name).rank := by
          rw [settle, if_neg hforeign, if_neg hp]
          split <;> simp [Disposition.rank, SkipReason.rank]
        exact Or.inr ⟨.ignoredName, by rw [settle, if_neg hforeign, if_pos hq], by decide, hlater⟩
    · have hp : name ∉ p.types := fun hp => hq (h.types hp)
      exact Or.inl (by rw [settle, settle, if_neg hforeign, if_neg hforeign, if_neg hp, if_neg hq])
  · -- The zone is third-party now, and it was checked before.
    have hlater : SkipReason.rank .thirdParty < (settle p .chrome position tag name).rank := by
      rw [settle, if_neg (by decide)]
      split
      · decide
      · split <;> simp [Disposition.rank, SkipReason.rank]
    exact Or.inr ⟨.thirdParty, rfl, by decide, hlater⟩

/-- The decision about a declaration narrows with the zone of its position. -/
theorem triage_narrows (c : Checker) {q : Policy} (h : c.policy.Within q) (real : RealPath)
    (u : SourceUnit) (d : Nat) :
    (c.triage real u d).Narrows (({ c with policy := q } : Checker).triage real u d) := by
  cases hplaced : Tag.placed? u d with
  | none =>
    rw [c.triage_of_not_placed real hplaced, Checker.triage_of_not_placed _ real hplaced]
    exact Or.inl rfl
  | some placed =>
    rw [c.triage_of_placed real hplaced, Checker.triage_of_placed _ real hplaced]
    exact settle_narrows h (Classifier.zoneOfPosition_narrows h _ real u _) _ _ _

end Checker

/-- An ignored base class stays one. -/
theorem SourceUnit.hasIgnoredBase_mono {p q : Policy} (h : p.Within q) {u : SourceUnit} {d : Nat}
    (hp : u.hasIgnoredBase p d = true) : u.hasIgnoredBase q d = true := by
  obtain ⟨b, hpath, hne, hhit⟩ := (hasIgnoredBase_iff p d).1 hp
  exact (hasIgnoredBase_iff q d).2 ⟨b, hpath, hne, h.ignoresBase hhit⟩

/-! ## Lists of declarations -/

namespace Checker

/-- A policy that is extended only removes work. About each declaration, what is forwarded under the
larger policy is forwarded under the smaller one in the same way, and what is skipped stays skipped,
for the same reason or one that is tried earlier; neither of the first two reasons changes. A file
name at most changes from chrome to third-party, and an ignored base class stays one. So a run over
a list of declarations checks a part of what it checked. -/
theorem extend_policy_checks_less (c : Checker) {e : Entries} {q : Policy}
    (h : c.policy.extend e = .ok q) (real : RealPath) (u : SourceUnit) :
    (∀ d zone position tag, ({ c with policy := q } : Checker).triage real u d =
      .forward zone position tag →
      c.triage real u d = .forward zone position tag) ∧
    (∀ d r, c.triage real u d = .skipped r →
      ∃ r', ({ c with policy := q } : Checker).triage real u d = .skipped r' ∧
        (r' = r ∨ r'.rank < r.rank) ∧
        (r = .notATag ∨ r = .thirdParty → r' = r)) ∧
    (∀ mode name, Classifier.zoneOfName ⟨q, mode, real⟩ name =
      Classifier.zoneOfName ⟨c.policy, mode, real⟩ name ∨
      (Classifier.zoneOfName ⟨c.policy, mode, real⟩ name = .chrome ∧
        Classifier.zoneOfName ⟨q, mode, real⟩ name = .thirdParty)) ∧
    (∀ d, u.hasIgnoredBase c.policy d = true → u.hasIgnoredBase q d = true) ∧
    ∀ ds : List Nat,
      (ds.filter (({ c with policy := q } : Checker).forwards real u)).Sublist
        (ds.filter (c.forwards real u)) ∧
      (ds.length < 2 ^ 64 →
        (({ c with policy := q } : Checker).checkDecls real u ds).checked ≤
          (c.checkDecls real u ds).checked) := by
  have hwithin : c.policy.Within q := Policy.within_extend h
  have hforwards : ∀ d, ({ c with policy := q } : Checker).forwards real u d = true →
      c.forwards real u d = true :=
    fun d => (c.triage_narrows hwithin real u d).isForward
  refine ⟨?_, ?_, ?_, ?_, fun ds => ⟨?_, ?_⟩⟩
  · intro d zone position tag hforward
    exact (c.triage_narrows hwithin real u d).forward hforward
  · intro d r hskipped
    exact (c.triage_narrows hwithin real u d).skipped hskipped
  · intro mode name
    exact Classifier.zoneOfName_narrows hwithin mode real name
  · intro d hbase
    exact SourceUnit.hasIgnoredBase_mono hwithin hbase
  · exact List.monotone_filter_right ds hforwards
  · intro hlength
    -- The counter does not come round, since it counts entries of the list.
    have hle : ds.countP (({ c with policy := q } : Checker).forwards real u) ≤
        ds.countP (c.forwards real u) :=
      List.countP_mono_left fun d _ => hforwards d
    have hfits : ds.countP (c.forwards real u) < 2 ^ 64 :=
      Nat.lt_of_le_of_lt List.countP_le_length hlength
    rw [checkDecls_eq_sorted, checkDecls_eq_sorted, UInt64.le_iff_toNat_le]
    simp only [Report.sorted, gathered, UInt64.toNat_ofNat']
    rw [Nat.mod_eq_of_lt hfits]
    exact Nat.le_trans (Nat.mod_le _ _) hle

/-- A class named as a test matcher, and another one. -/
def matcherUnit : SourceUnit :=
  SourceUnit.empty.applyAll [.addFile "src/a.h" false, .addPosition 0 3 1,
    .addRecord 0 "EqMatcher" 0, .addRecord 0 "Eq" 0]

/-- Once its name is ignored, the matcher is skipped for that reason, which is tried before. -/
theorem extend_policy_checks_less_matcher :
    Policy.empty.extend { types := ["EqMatcher"] } = .ok ⟨[], ["EqMatcher"], []⟩ ∧
      triage ⟨.empty, {}, []⟩ (fun _ => none) matcherUnit 1 = .skipped .matcherSuffix ∧
      (∃ r, triage ⟨⟨[], ["EqMatcher"], []⟩, {}, []⟩ (fun _ => none) matcherUnit 1 = .skipped r ∧
        (r = .matcherSuffix ∨ r.rank < 3)) ∧
      triage ⟨.empty, {}, []⟩ (fun _ => none) matcherUnit 2 =
        .forward .chrome 0 (.classLike 2) := by
  have hextend : Policy.empty.extend { types := ["EqMatcher"] } = .ok ⟨[], ["EqMatcher"], []⟩ := rfl
  have hbefore :
      triage ⟨.empty, {}, []⟩ (fun _ => none) matcherUnit 1 = .skipped .matcherSuffix := by
    decide +kernel
  have hafter : triage ⟨⟨[], ["EqMatcher"], []⟩, {}, []⟩ (fun _ => none) matcherUnit 2 =
      .forward .chrome 0 (.classLike 2) := by
    decide +kernel
  obtain ⟨hforward, hskipped, -⟩ :=
    extend_policy_checks_less ⟨.empty, {}, []⟩ hextend (fun _ => none) matcherUnit
  obtain ⟨r, hr, hrank, -⟩ := hskipped 1 _ hbefore
  exact ⟨hextend, hbefore, ⟨r, hr, hrank⟩, hforward 2 _ _ _ hafter⟩

end Checker

end StyleZones

import Mathlib.Tactic.SplitIfs
import StyleZones.Check.Checker

/-!
# The decision about a declaration

What becomes of a declaration is decided in two parts. The unit says whether it is a class or an
enumeration, where it stands and what it is called (`Tag.placed?`), and the classifier the zone.
From this the policy and the name decide (`Checker.settle`). The theorems about the decision are
about one part or the other.
-/

set_option autoImplicit false

namespace StyleZones

namespace Tag

/-- The declaration as a class or an enumeration, and its position. -/
def placed? (u : SourceUnit) (d : Nat) : Option (Tag × Nat) :=
  match u.entity? d with
  | some (.record _ position) => some (.classLike d, position)
  | some (.enumeration _ position) => some (.enumeration d, position)
  | _ => none

variable {u : SourceUnit} {d : Nat}

theorem ofDecl?_eq_placed : ofDecl? u d = (placed? u d).map Prod.fst := by
  unfold ofDecl? placed?
  cases u.entity? d with
  | none => rfl
  | some entity => cases entity <;> rfl

/-- A class or an enumeration stands at the position of its declaration. -/
theorem placed_spec {tag : Tag} {p : Nat} (h : placed? u d = some (tag, p)) :
    tag.decl = d ∧ u.position? d = some p := by
  rw [u.position?_eq_entity]
  unfold placed? at h
  split at h
  case h_1 name position hentity =>
    obtain ⟨rfl, rfl⟩ := Prod.mk.inj (Option.some.inj h)
    exact ⟨rfl, by rw [hentity]; rfl⟩
  case h_2 name position hentity =>
    obtain ⟨rfl, rfl⟩ := Prod.mk.inj (Option.some.inj h)
    exact ⟨rfl, by rw [hentity]; rfl⟩
  case h_3 => cases h

/-- A class or an enumeration is one of those that the unit lists. -/
theorem isTag_of_placed {placed : Tag × Nat} (h : placed? u d = some placed) :
    u.isTag d = true := by
  rw [u.isTag_eq_entity]
  unfold placed? at h
  split at h
  case h_1 name position hentity =>
    rw [hentity]
    rfl
  case h_2 name position hentity =>
    rw [hentity]
    rfl
  case h_3 => cases h

end Tag

namespace Checker

/-- What becomes of a class or an enumeration of a known zone: the first reason against it that
applies. -/
def settle (p : Policy) (zone : Zone) (position : Nat) (tag : Tag) (name : String) : Disposition :=
  if zone = .thirdParty then .skipped .thirdParty
  else if name ∈ p.types then .skipped .ignoredName
  else if tag.isClass = true ∧ Text.endsWith name matcherSuffix = true then .skipped .matcherSuffix
  else .forward zone position tag

variable (c : Checker) (real : RealPath) {u : SourceUnit} {d : Nat}

theorem triage_of_not_placed (h : Tag.placed? u d = none) :
    c.triage real u d = .skipped .notATag := by
  rw [triage, Tag.ofDecl?_eq_placed, h]
  rfl

theorem triage_of_placed {tag : Tag} {p : Nat} (h : Tag.placed? u d = some (tag, p)) :
    c.triage real u d = settle c.policy ((c.classifier real).zoneOfPosition u p) p tag
      (u.simpleName d) := by
  have hchecked : ∀ z : Zone, (!z.isChecked) = true ↔ z = .thirdParty := by
    intro z
    cases z <;> simp [Zone.isChecked]
  rw [triage, Tag.ofDecl?_eq_placed, h, (Tag.placed_spec h).2]
  simp only [Option.map_some, hchecked, Policy.ignoresType, List.contains_iff_mem, Bool.and_eq_true,
    settle]

/-- A declaration that is handed to the checks is handed over as it stands in the unit. -/
theorem placed_of_triage_forward {zone : Zone} {p : Nat} {tag : Tag}
    (h : c.triage real u d = .forward zone p tag) :
    Tag.placed? u d = some (tag, p) := by
  cases hplaced : Tag.placed? u d with
  | none =>
    rw [c.triage_of_not_placed real hplaced] at h
    cases h
  | some placed =>
    rw [c.triage_of_placed real hplaced, settle] at h
    split_ifs at h
    obtain ⟨-, rfl, rfl⟩ := Disposition.forward.inj h
    rfl

end Checker

end StyleZones

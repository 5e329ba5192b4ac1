import StyleZones.Proofs.Policy.Extension
import StyleZones.Zone

/-!
# Growth of policies

A policy that is extended keeps its entries (`Policy.within_extend`). More directories can turn the
zone of a path from chrome to third-party, and in no other way: the rendering engine is looked for
first.
-/

set_option autoImplicit false

namespace StyleZones

namespace Policy

/-- Every entry of the first policy is one of the second. -/
structure Within (p q : Policy) : Prop where
  directories : p.directories ⊆ q.directories
  types : p.types ⊆ q.types
  bases : p.bases ⊆ q.bases

variable {p q : Policy}

/-- An extension that succeeds keeps every entry. -/
theorem within_extend {e : Entries} (h : p.extend e = .ok q) : p.Within q := by
  obtain ⟨-, rfl⟩ := (p.extend_eq_ok_iff e q).1 h
  have hjoins := p.united_joins e
  exact
    { directories := fun m hm => (hjoins.directories m).2 (.inl hm)
      types := fun name hname => (hjoins.types name).2 (.inl hname)
      bases := fun name hname => (hjoins.bases name).2 (.inl hname) }

theorem Within.ignoresBase (h : p.Within q) {name : String} (hp : p.ignoresBase name = true) :
    q.ignoresBase name = true :=
  List.contains_iff_mem.2 (h.bases (List.contains_iff_mem.1 hp))

/-- A path that a banned directory stands in has one under the larger policy too, though perhaps
another. -/
theorem Within.bannedDirectoryIn (h : p.Within q) {path : String}
    (hp : (p.bannedDirectoryIn path).isSome = true) :
    (q.bannedDirectoryIn path).isSome = true := by
  unfold Policy.bannedDirectoryIn at hp ⊢
  rw [List.find?_isSome] at hp ⊢
  obtain ⟨m, hm, hoccurs⟩ := hp
  exact ⟨m, h.directories hm, hoccurs⟩

end Policy

namespace Zone

/-- The zone is the same, or it is third-party where it was chrome. -/
def Narrows (before after : Zone) : Prop :=
  after = before ∨ (before = .chrome ∧ after = .thirdParty)

end Zone

namespace Classifier

variable {p q : Policy} (h : p.Within q)
include h

/-- A path stays in its zone or goes from chrome to third-party. Whether it lies in the rendering
engine is not up to the policy. -/
theorem zoneOfPath_narrows (path : String) : (zoneOfPath p path).Narrows (zoneOfPath q path) := by
  unfold zoneOfPath
  by_cases hblink : isBlinkPath path = true
  · rw [if_pos hblink, if_pos hblink]
    exact Or.inl rfl
  rw [if_neg hblink, if_neg hblink]
  by_cases hp : (p.bannedDirectoryIn path).isSome = true
  · rw [if_pos hp, if_pos (h.bannedDirectoryIn hp)]
    exact Or.inl rfl
  rw [if_neg hp]
  by_cases hq : (q.bannedDirectoryIn path).isSome = true
  · rw [if_pos hq]
    exact Or.inr ⟨rfl, rfl⟩
  · rw [if_neg hq]
    exact Or.inl rfl

/-- So does a file name, since the path that is made of it does not depend on the policy. -/
theorem zoneOfName_narrows (mode : PathMode) (real : RealPath) (name : String) :
    (zoneOfName ⟨p, mode, real⟩ name).Narrows (zoneOfName ⟨q, mode, real⟩ name) := by
  unfold zoneOfName
  by_cases hscratch : name = scratchSpace
  · rw [if_pos hscratch, if_pos hscratch]
    exact Or.inl rfl
  · rw [if_neg hscratch, if_neg hscratch]
    exact zoneOfPath_narrows h _

end Classifier

end StyleZones

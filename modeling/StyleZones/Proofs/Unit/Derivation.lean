import Mathlib.Logic.Relation
import StyleZones.Unit.Bases

/-!
# What a declaration derives from

Base classes make a graph, in which there may be circles. The search for an ignored base class goes
through it with an inventory of the declarations that it has not met yet. What it finds does not
depend on the order in which it goes: `SourceUnit.hasIgnoredBase_iff` says that a declaration has an
ignored base class exactly if it derives, in one step or more, from another one that the policy
ignores.

The search looks into a declaration once. This loses nothing, because a path that comes to a
declaration several times can be entered where it leaves it for the last time
(`exists_path_avoiding`).
-/

set_option autoImplicit false

namespace StyleZones

/-- A path either ends at `d`, or has a last part that does not come to `d`: all of the path, or
what follows the last visit. -/
theorem exists_path_avoiding {step : Nat → Nat → Prop} (d : Nat) {s t : Nat}
    (h : Relation.ReflTransGen step s t) :
    t = d ∨ (s ≠ d ∧ Relation.ReflTransGen (fun a b => step a b ∧ b ≠ d) s t) ∨
      ∃ b, step d b ∧ b ≠ d ∧ Relation.ReflTransGen (fun a b => step a b ∧ b ≠ d) b t := by
  induction h with
  | refl =>
    by_cases hs : s = d
    · exact Or.inl hs
    · exact Or.inr (Or.inl ⟨hs, .refl⟩)
  | @tail m t _ hstep ih =>
    by_cases ht : t = d
    · exact Or.inl ht
    · right
      rcases ih with rfl | ⟨hs, hpath⟩ | ⟨b, hb, hne, hpath⟩
      · exact Or.inr ⟨t, hstep, ht, .refl⟩
      · exact Or.inl ⟨hs, hpath.tail ⟨hstep, ht⟩⟩
      · exact Or.inr ⟨b, hb, hne, hpath.tail ⟨hstep, ht⟩⟩

namespace SourceUnit

variable {u : SourceUnit}

/-- A declaration names another as a base class, and that one is a record. -/
def Derives (u : SourceUnit) (d b : Nat) : Prop :=
  b ∈ u.recordBases d

theorem derives_iff (d b : Nat) : u.Derives d b ↔ some b ∈ u.bases d ∧ u.isRecord b = true := by
  simp [Derives, recordBases]

/-- Records are declarations of the unit. -/
theorem lt_of_isRecord {d : Nat} (h : u.isRecord d = true) : d < u.decls.size := by
  refine Decidable.byContradiction fun hd => ?_
  rw [isRecord, Array.getElem?_eq_none (Nat.le_of_not_lt hd)] at h
  cases h

theorem Derives.lt {d b : Nat} (h : u.Derives d b) : b < u.decls.size :=
  lt_of_isRecord ((u.derives_iff d b).1 h).2

/-! ## The search -/

/-- A declaration of the inventory is reached through declarations of the inventory. -/
def Meets (u : SourceUnit) (unmet : List Nat) (s t : Nat) : Prop :=
  s ∈ unmet ∧ Relation.ReflTransGen (fun a b => u.Derives a b ∧ b ∈ unmet) s t

/-- A smaller inventory reaches less. -/
theorem Meets.mono {few many : List Nat} (hsub : few ⊆ many) {s t : Nat} (h : u.Meets few s t) :
    u.Meets many s t :=
  ⟨hsub h.1, Relation.ReflTransGen.mono (fun _ _ hstep => ⟨hstep.1, hsub hstep.2⟩) s t h.2⟩

/-- What is reached with `d` in the inventory is `d`, or is reached without it, or from a base class
of `d`. -/
theorem Meets.erase {unmet : List Nat} (hnodup : unmet.Nodup) (d : Nat) {s t : Nat}
    (h : u.Meets unmet s t) :
    t = d ∨ (s ≠ d ∧ u.Meets (unmet.erase d) s t) ∨
      ∃ b, u.Derives d b ∧ u.Meets (unmet.erase d) b t := by
  have hstep : ∀ a b, (u.Derives a b ∧ b ∈ unmet) ∧ b ≠ d → u.Derives a b ∧ b ∈ unmet.erase d := by
    rintro a b ⟨⟨hab, hb⟩, hne⟩
    exact ⟨hab, hnodup.mem_erase_iff.2 ⟨hne, hb⟩⟩
  obtain ⟨hs, hpath⟩ := h
  rcases exists_path_avoiding d hpath with rfl | ⟨hne, hrest⟩ | ⟨b, ⟨hb, hmem⟩, hne, hrest⟩
  · exact Or.inl rfl
  · exact Or.inr (Or.inl ⟨hne, hnodup.mem_erase_iff.2 ⟨hne, hs⟩,
      Relation.ReflTransGen.mono hstep s t hrest⟩)
  · exact Or.inr (Or.inr ⟨b, hb, hnodup.mem_erase_iff.2 ⟨hne, hmem⟩,
      Relation.ReflTransGen.mono hstep b t hrest⟩)

/-- The search succeeds exactly if a hit is reached from one of the declarations to do. -/
theorem searchBases_iff (hit : Nat → Bool) {unmet : List Nat} (todo : List Nat)
    (hnodup : unmet.Nodup) :
    u.searchBases hit unmet todo = true ↔ ∃ s ∈ todo, ∃ t, u.Meets unmet s t ∧ hit t = true := by
  fun_induction searchBases u hit unmet todo with
  | case1 unmet => simp
  | case2 unmet d rest hd ih =>
    rw [Bool.or_eq_true, ih (hnodup.erase d)]
    constructor
    · rintro (hhit | ⟨s, hs, t, hmeets, hhit⟩)
      · exact ⟨d, List.mem_cons_self, d, ⟨hd, .refl⟩, hhit⟩
      · have hall := hmeets.mono List.erase_subset
        rcases List.mem_append.1 hs with hbase | hrest
        · exact ⟨d, List.mem_cons_self, t, ⟨hd, .head ⟨hbase, hall.1⟩ hall.2⟩, hhit⟩
        · exact ⟨s, List.mem_cons_of_mem d hrest, t, hall, hhit⟩
    · -- From now on `d` is missing from the inventory, so the path is entered after its last visit
      -- to `d`.
      rintro ⟨s, hs, t, hmeets, hhit⟩
      rcases hmeets.erase hnodup d with rfl | ⟨hne, hwithout⟩ | ⟨b, hb, hwithout⟩
      · exact Or.inl hhit
      · have hrest : s ∈ rest := List.mem_of_ne_of_mem hne hs
        exact Or.inr ⟨s, List.mem_append_right _ hrest, t, hwithout, hhit⟩
      · exact Or.inr ⟨b, List.mem_append_left _ hb, t, hwithout, hhit⟩
  | case3 unmet d rest hd ih =>
    rw [ih hnodup]
    constructor
    · rintro ⟨s, hs, found⟩
      exact ⟨s, List.mem_cons_of_mem d hs, found⟩
    · rintro ⟨s, hs, t, hmeets, hhit⟩
      rcases List.mem_cons.1 hs with rfl | hrest
      · exact absurd hmeets.1 hd
      · exact ⟨s, hrest, t, hmeets, hhit⟩

/-- A declaration has an ignored base class exactly if it derives from another one that the policy
ignores. -/
theorem hasIgnoredBase_iff (p : Policy) (d : Nat) :
    u.hasIgnoredBase p d = true ↔
      ∃ b, Relation.TransGen u.Derives d b ∧ b ≠ d ∧ u.isIgnoredBase p b = true := by
  have hnodup : ((List.range u.decls.size).erase d).Nodup := List.nodup_range.erase d
  have hmem : ∀ b, b ∈ (List.range u.decls.size).erase d ↔ b ≠ d ∧ b < u.decls.size := by
    intro b
    rw [List.nodup_range.mem_erase_iff, List.mem_range]
  rw [hasIgnoredBase, searchBases_iff _ _ hnodup]
  constructor
  · rintro ⟨s, hs, t, ⟨hfirst, hpath⟩, hhit⟩
    refine ⟨t, ?_, ?_, hhit⟩
    · have hderives : Relation.ReflTransGen u.Derives s t :=
        Relation.ReflTransGen.mono (fun _ _ hstep => hstep.1) s t hpath
      exact Relation.TransGen.head' hs hderives
    · -- The path keeps to the inventory, in which `d` is not.
      rcases hpath.cases_tail with rfl | ⟨m, -, hlast⟩
      · exact ((hmem _).1 hfirst).1
      · exact ((hmem t).1 hlast.2).1
  · rintro ⟨t, hpath, hne, hhit⟩
    rcases exists_path_avoiding d hpath.to_reflTransGen with rfl | ⟨hself, -⟩ | ⟨b, hb, hbd, hrest⟩
    · exact absurd rfl hne
    · exact absurd rfl hself
    · have hfirst : b ∈ (List.range u.decls.size).erase d := (hmem b).2 ⟨hbd, Derives.lt hb⟩
      refine ⟨b, hb, t, ⟨hfirst, Relation.ReflTransGen.mono ?_ b t hrest⟩, hhit⟩
      rintro a c ⟨hac, hcd⟩
      exact ⟨hac, (hmem c).2 ⟨hcd, Derives.lt hac⟩⟩

end SourceUnit

end StyleZones

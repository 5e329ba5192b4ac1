import StyleZones.Proofs.Unit.Namespace

/-!
# The two names side by side

What is reported about a declaration shows its qualified name and its namespace. They come from two
walks, which differ in where they start, in the scopes that they take up, and in what they call a
namespace without a name or with an empty one. Where there is nothing around a declaration but
blocks and namespaces whose names are not empty (`SourceUnit.InNamespacesOnly`), both walks
nevertheless tell the same namespaces, one for one (`InStep`).

* `WellFormed.read_scopeLabel?_eq`: the labels are the names of the namespaces, with a stand-in for
  missing ones.
* `SourceUnit.labels_in_step_with_namespaces`: the labels and the namespaces agree in each place,
  and if no name is missing the qualified name is the namespace and then the declaration's own name.
-/

set_option autoImplicit false

namespace StyleZones

/-- The label of a namespace of that name. -/
def labelledName (name : Option String) : String :=
  name.getD "(anonymous namespace)"

/-- Labels and shown names tell the same namespaces, whose own names are `spaces`: there is one of
each for every namespace, and in each place they are the same name, or the two stand-ins for a
missing name. -/
structure InStep (spaces : List (Option String)) (labels names : List String) : Prop where
  /-- There is one label for every namespace. -/
  length_labels : labels.length = spaces.length
  /-- There is one shown name for every namespace. -/
  length_names : names.length = spaces.length
  /-- A namespace with a name has it in both lists. -/
  named : ∀ (i : Nat) (name : String), spaces[i]? = some (some name) →
    labels[i]? = some name ∧ names[i]? = some name
  /-- A namespace without a name has the stand-in of each list. -/
  anonymous : ∀ i : Nat, spaces[i]? = some none →
    labels[i]? = some "(anonymous namespace)" ∧ names[i]? = some "<anonymous namespace>"

theorem inStep_map (spaces : List (Option String)) :
    InStep spaces (spaces.map labelledName) (spaces.map shownName) where
  length_labels := List.length_map _
  length_names := List.length_map _
  named := by
    intro i name h
    rw [List.getElem?_map, List.getElem?_map, h]
    exact ⟨rfl, rfl⟩
  anonymous := by
    intro i h
    rw [List.getElem?_map, List.getElem?_map, h]
    exact ⟨rfl, rfl⟩

/-- Behind names that are not empty, one more is joined after a separator. -/
theorem intercalate_concat (names : List String) (last : String) (hnames : "" ∉ names) :
    "::".intercalate (names ++ [last]) =
      if "::".intercalate names = "" then last else "::".intercalate names ++ "::" ++ last := by
  by_cases hnil : names = []
  · simp [hnil]
  · have hjoined : "::".intercalate names ≠ "" := by
      intro h
      rcases (intercalate_eq_empty_iff names).1 h with h | h
      · exact hnil h
      · -- The only other list that is joined to nothing has an empty name in it.
        simp [h] at hnames
    rw [if_neg hjoined, String.intercalate_append_of_ne_nil hnil (by simp),
      String.intercalate_singleton]

namespace SourceUnit

variable (u : SourceUnit)

/-- Around the declaration there are only the unit itself, blocks, and namespaces that have no name
or one that is not empty. -/
def InNamespacesOnly (d : Nat) : Prop :=
  ∀ a, u.Encloses a d →
    u.entity? a = some .unit ∨ u.entity? a = some .block ∨
      ∃ name, u.entity? a = some (.nameSpace name) ∧ name ≠ some ""

variable {u}

theorem read_congr {α : Type} {pick other : Entity → Option α} {path : List Nat}
    (h : ∀ a ∈ path, ∀ e, u.entity? a = some e → pick e = other e) :
    u.read pick path = u.read other path := by
  refine List.filterMap_congr fun e he => ?_
  obtain ⟨a, ha, hentity⟩ := List.mem_filterMap.1 he
  exact h a ha e hentity

namespace WellFormed

variable (hu : u.WellFormed)
include hu

/-- Where there are only namespaces, the labels are their names. -/
theorem read_scopeLabel?_eq {d : Nat} (hscopes : u.InNamespacesOnly d) :
    u.read Entity.scopeLabel? (u.ancestors d) =
      (u.read Entity.namespaceName? (u.ancestors d)).map labelledName := by
  rw [← read_map]
  apply read_congr
  intro a ha e he
  have hkinds := hscopes a ((hu.mem_ancestors_iff d a).1 ha)
  rw [he] at hkinds
  rcases hkinds with hunit | hblock | ⟨name, hname, hne⟩
  · cases hunit
    rfl
  · cases hblock
    rfl
  · cases hname
    cases name with
    | none => rfl
    | some name =>
      have hname : name ≠ "" := fun h => hne (congrArg some h)
      simp [Entity.scopeLabel?, Entity.name, Entity.namespaceName?, labelledName, hname]

/-- If every namespace has a name, the shown names are these names, and none of them is empty. -/
theorem labels_eq_shownNamespaces {d : Nat} (hscopes : u.InNamespacesOnly d)
    (hnamed : ∀ a, u.Encloses a d → u.entity? a ≠ some (.nameSpace none)) :
    u.read Entity.scopeLabel? (u.ancestors d) = u.shownNamespaces (u.ancestors d) ∧
      "" ∉ u.shownNamespaces (u.ancestors d) := by
  constructor
  · rw [hu.read_scopeLabel?_eq hscopes, shownNamespaces]
    apply List.map_congr_left
    intro name hname
    obtain ⟨a, ha, he⟩ := hu.mem_read_namespaceName?.1 hname
    cases name with
    | none => exact absurd he (hnamed a ha)
    | some name => rfl
  · intro hempty
    -- An empty name is shown only for a namespace that has it, and the scopes rule that out.
    obtain ⟨name, hname, hshown⟩ := List.mem_map.1 hempty
    obtain ⟨a, ha, he⟩ := hu.mem_read_namespaceName?.1 hname
    rw [(shownName_eq_empty_iff name).1 hshown] at he
    rcases hscopes a ha with hunit | hblock | ⟨other, hother, hne⟩
    · rw [he] at hunit
      cases hunit
    · rw [he] at hblock
      cases hblock
    · rw [he] at hother
      cases hother
      exact hne rfl

end WellFormed

/-- In a unit that is grown by edits or loaded, take a declaration around which there are only
namespaces, with no empty names, and blocks. The labels in front of its own name in its qualified
name, and the names in the namespace of its parent, are in step. If no namespace is anonymous, the
qualified name is the namespace and then the declaration's own name. -/
theorem labels_in_step_with_namespaces (hu : u.Reachable) {d : Nat} (hd : d < u.decls.size)
    (h0 : d ≠ 0) (hscopes : u.InNamespacesOnly d) :
    ∃ q path labels names, u.StandsIn d q ∧ u.Lineage d path ∧
      u.labelsAround d [u.simpleName d] = labels ++ [u.simpleName d] ∧
      u.qualifiedName d = "::".intercalate (labels ++ [u.simpleName d]) ∧
      u.namespacesFrom q [] = names ∧
      u.qualifiedNamespace q = "::".intercalate names ∧
      InStep (u.read Entity.namespaceName? path) labels names ∧
      ((∀ a, u.Encloses a d → u.entity? a ≠ some (.nameSpace none)) →
        u.qualifiedName d =
          if u.namespaceOf .qualified d = "" then u.simpleName d
          else u.namespaceOf .qualified d ++ "::" ++ u.simpleName d) := by
  have hwf := hu.wellFormed
  obtain ⟨q, hq, hqsize⟩ := hwf.exists_standsIn hd h0
  -- The parent ends the lineage of the declaration, and the names are asked from the parent on.
  have hnames : u.namespacesFrom q [] = u.shownNamespaces (u.ancestors d) := by
    rw [hwf.namespacesFrom_eq hqsize, hwf.ancestors_of_standsIn hq]
  refine ⟨q, u.ancestors d, u.read Entity.scopeLabel? (u.ancestors d),
    u.shownNamespaces (u.ancestors d), hq, hwf.lineage_ancestors d, hwf.labelsAround_eq_read hd _,
    hwf.qualifiedName_eq hd, hnames, ?_, ?_, ?_⟩
  · rw [hwf.qualifiedNamespace_eq hqsize, hwf.ancestors_of_standsIn hq]
  · rw [hwf.read_scopeLabel?_eq hscopes]
    exact inStep_map _
  · intro hnamed
    obtain ⟨hlabels, hempty⟩ := hwf.labels_eq_shownNamespaces hscopes hnamed
    have hnamespace :
        u.namespaceOf .qualified d = "::".intercalate (u.shownNamespaces (u.ancestors d)) :=
      hwf.namespaceOf_eq hd .qualified
    rw [hwf.qualifiedName_eq hd, hlabels, hnamespace]
    exact intercalate_concat _ _ hempty

end SourceUnit

/-- A class in three namespaces, of which the second has no name and stands in a block. -/
def Snapshot.layered : Snapshot where
  files := []
  positions := [.invalid]
  decls := [.nameSpace (some "content") none, .block (some 0), .nameSpace none (some 1),
    .nameSpace (some "internal") (some 2), .record "Frame" (some 3) 0 []]

theorem SourceUnit.labels_in_step_with_namespaces_layered :
    Snapshot.layered.load = .ok Snapshot.layered.image ∧ Snapshot.layered.image.InNamespacesOnly 5 ∧
      ∃ labels names, Snapshot.layered.image.labelsAround 5 ["Frame"] = labels ++ ["Frame"] ∧
        Snapshot.layered.image.namespacesFrom 4 [] = names ∧
        InStep [some "content", none, some "internal"] labels names := by
  have hload : Snapshot.layered.load = .ok Snapshot.layered.image := rfl
  have hscopes : Snapshot.layered.image.InNamespacesOnly 5 := by
    intro a ha
    have hlt := (Snapshot.reachable_of_load hload).wellFormed.lt_of_encloses ha
    obtain rfl | rfl | rfl | rfl | rfl : a = 0 ∨ a = 1 ∨ a = 2 ∨ a = 3 ∨ a = 4 := by omega
    · exact Or.inl rfl
    · exact Or.inr (Or.inr ⟨some "content", rfl, by decide⟩)
    · exact Or.inr (Or.inl rfl)
    · exact Or.inr (Or.inr ⟨none, rfl, by decide⟩)
    · exact Or.inr (Or.inr ⟨some "internal", rfl, by decide⟩)
  obtain ⟨q, path, labels, names, hq, hpath, hlabels, -, hnames, -, hstep, -⟩ :=
    labels_in_step_with_namespaces (Snapshot.reachable_of_load hload) (d := 5) (by decide)
      (by decide) hscopes
  obtain rfl : 4 = q := Option.some.inj hq
  have hlineage := hpath.unique
    (.within rfl (.within rfl (.within rfl (.within rfl (.within rfl (.outermost rfl))))))
  subst hlineage
  exact ⟨hload, hscopes, labels, names, hlabels, hnames, hstep⟩

end StyleZones

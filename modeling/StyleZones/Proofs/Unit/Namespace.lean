import StyleZones.Proofs.Unit.QualifiedName

/-!
# Namespaces along lineages

Two walks outwards look for namespaces. One keeps the last that it meets, and so ends with the
outermost; the other keeps them all. Both see the namespaces of one list, the names of the
namespaces among a declaration and the scopes around it (`WellFormed.outermostNamespace_eq`,
`WellFormed.qualifiedNamespace_eq`).

* `SourceUnit.namespaces_follow_lineage`: what the walks find, from where they start for a
  declaration, and that nothing but namespaces matters to them.
* `Snapshot.namespaceOf_eq_empty_iff`: when the namespace of a declaration is the empty text. This
  is so outside of all namespaces, but also inside of one whose name is empty
  (`Snapshot.hollow_namespaceOf_eq_empty`).
-/

set_option autoImplicit false

namespace StyleZones

/-! ## Names of namespaces -/

/-- The text for a namespace of that name. -/
def shownName (name : Option String) : String :=
  name.getD "<anonymous namespace>"

namespace Entity

/-- The name of a namespace, `none` inside if it is anonymous. Nothing else is a namespace. -/
def namespaceName? : Entity → Option (Option String)
  | .nameSpace name => some name
  | _ => none

/-- The entity is a record, an enumeration, a function or a block. -/
def isInnerScope : Entity → Bool
  | .record _ _ | .enumeration _ _ | .function _ | .block => true
  | .unit | .nameSpace _ => false

theorem displayName?_eq_map : displayName? = fun e => e.namespaceName?.map shownName := by
  funext e
  cases e <;> rfl

end Entity

namespace NamespaceMode

/-- What is shown of a list of namespaces. -/
def label : NamespaceMode → List String → String
  | .outermost, names => names.head?.getD ""
  | .qualified, names => "::".intercalate names

end NamespaceMode

namespace SourceUnit

variable (u : SourceUnit)

/-- The texts for the namespaces of a path, in order. -/
def shownNamespaces (path : List Nat) : List String :=
  (u.read Entity.namespaceName? path).map shownName

/-- One declaration is a record, an enumeration, a function or a block, and stands in the other. -/
def PassesOver (x y : Nat) : Prop :=
  (∃ e, u.entity? x = some e ∧ e.isInnerScope = true) ∧ u.StandsIn x y

/-- No namespace is around the declaration. -/
def OutsideNamespaces (d : Nat) : Prop :=
  ∀ a, u.Encloses a d → ∀ name, u.entity? a ≠ some (.nameSpace name)

variable {u}

theorem read_map {α β : Type} (pick : Entity → Option α) (g : α → β) (path : List Nat) :
    u.read (fun e => (pick e).map g) path = (u.read pick path).map g := by
  rw [read, read, List.map_filterMap]

/-- What scopes bring to a namespace is what namespaces on the path are shown as. -/
theorem read_displayName? (path : List Nat) :
    u.read Entity.displayName? path = u.shownNamespaces path := by
  rw [Entity.displayName?_eq_map, read_map]
  rfl

theorem shownNamespaces_append (path rest : List Nat) :
    u.shownNamespaces (path ++ rest) = u.shownNamespaces path ++ u.shownNamespaces rest := by
  rw [shownNamespaces, read_append, List.map_append]
  rfl

theorem shownNamespaces_moveTo {d q : Nat} (path : List Nat) :
    (u.moveTo d q).shownNamespaces path = u.shownNamespaces path := by
  rw [shownNamespaces, read_moveTo]
  rfl

/-- Where only records, enumerations, functions and blocks are passed, no namespace is. -/
theorem passes_of_passesOver {x y : Nat} (h : Relation.ReflTransGen u.PassesOver x y) :
    Relation.ReflTransGen (u.Passes Entity.namespaceName?) x y := by
  refine Relation.ReflTransGen.mono ?_ x y h
  rintro x y ⟨⟨e, he, hinner⟩, hstands⟩
  refine ⟨?_, hstands⟩
  rw [read_singleton _ he]
  cases e with
  | unit | nameSpace name => cases hinner
  | _ => rfl

namespace WellFormed

variable (hu : u.WellFormed)
include hu

/-! ## The two walks -/

theorem namespacesFrom_eq {c : Nat} (hc : c < u.decls.size) :
    u.namespacesFrom c [] = u.shownNamespaces (u.ancestors c ++ [c]) := by
  rw [(Strict.climbs_namespacesFrom hu).eq_read hu rfl hc, List.append_nil, read_displayName?]

/-- Of the namespaces that it meets one after another, the first walk ends with the outermost. -/
theorem outermostNamespace_eq {c : Nat} (hc : c < u.decls.size) :
    u.outermostNamespace c = (u.shownNamespaces (u.ancestors c ++ [c])).head?.getD "" := by
  rw [outermostNamespace, (Strict.climbs_outermostFrom hu).eq_head hu rfl hc, read_displayName?]

/-- The second walk has them all in the end, the outermost first. -/
theorem qualifiedNamespace_eq {c : Nat} (hc : c < u.decls.size) :
    u.qualifiedNamespace c = "::".intercalate (u.shownNamespaces (u.ancestors c ++ [c])) := by
  rw [qualifiedNamespace, hu.namespacesFrom_eq hc]
  rfl

/-- Both ways to show a namespace go by the names on the lineage, the scope itself included. -/
theorem namespaceAt_eq {c : Nat} (hc : c < u.decls.size) (mode : NamespaceMode) :
    u.namespaceAt mode c = mode.label (u.shownNamespaces (u.ancestors c ++ [c])) := by
  cases mode with
  | outermost => exact hu.outermostNamespace_eq hc
  | qualified => exact hu.qualifiedNamespace_eq hc

/-- The namespace of a declaration is read along its lineage, which does not have the declaration
itself in it. -/
theorem namespaceOf_eq {d : Nat} (hd : d < u.decls.size) (mode : NamespaceMode) :
    u.namespaceOf mode d = mode.label (u.shownNamespaces (u.ancestors d)) := by
  rw [namespaceOf]
  cases hq : u.parent? d with
  | none =>
    rw [ancestors_of_root hq]
    cases mode <;> rfl
  | some q =>
    rw [hu.ancestors_of_standsIn hq]
    exact hu.namespaceAt_eq (Nat.lt_trans (hu.parent_lt hq) hd) mode

/-! ## Scopes that are no namespaces -/

section Move

variable {d q a : Nat} (hd : u.StandsIn d q) (ha : Relation.ReflTransGen u.PassesOver q a)
include hd ha

/-- A declaration that is moved out of scopes that are no namespaces leaves the namespaces of each
lineage the same. -/
theorem shownNamespaces_ancestors_moveTo (c : Nat) :
    u.shownNamespaces ((u.moveTo d a).ancestors c) = u.shownNamespaces (u.ancestors c) := by
  rw [shownNamespaces, hu.read_ancestors_moveTo hd (passes_of_passesOver ha)]
  rfl

theorem namespaceAt_moveTo {c : Nat} (hc : c < u.decls.size) (mode : NamespaceMode) :
    (u.moveTo d a).namespaceAt mode c = u.namespaceAt mode c := by
  have hv := hu.moveTo_of_passes hd (passes_of_passesOver ha)
  rw [hv.namespaceAt_eq (by rwa [decls_size_moveTo]), hu.namespaceAt_eq hc, shownNamespaces_moveTo,
    shownNamespaces_append, shownNamespaces_append, hu.shownNamespaces_ancestors_moveTo hd ha]

/-- A move out of scopes that are no namespaces changes the namespace of no declaration. -/
theorem namespaceOf_moveTo {c : Nat} (hc : c < u.decls.size) (mode : NamespaceMode) :
    (u.moveTo d a).namespaceOf mode c = u.namespaceOf mode c := by
  have hv := hu.moveTo_of_passes hd (passes_of_passesOver ha)
  rw [hv.namespaceOf_eq (by rwa [decls_size_moveTo]), hu.namespaceOf_eq hc, shownNamespaces_moveTo,
    hu.shownNamespaces_ancestors_moveTo hd ha]

end Move

end WellFormed

/-- In a unit that is grown by edits or loaded, the two walks show the namespaces among a scope and
the scopes around it, the outermost of them or all. For a declaration they start at its parent, so
that only what is around it is shown. Moving a declaration out of records, enumerations, functions
and blocks changes nothing of what is shown. -/
theorem namespaces_follow_lineage (hu : u.Reachable) :
    (∀ c, c < u.decls.size → ∃ path, u.Lineage c path ∧
        u.outermostNamespace c = (u.shownNamespaces (path ++ [c])).head?.getD "" ∧
        u.qualifiedNamespace c = "::".intercalate (u.shownNamespaces (path ++ [c]))) ∧
      (∀ d, d < u.decls.size → d ≠ 0 → ∃ q path, u.StandsIn d q ∧ u.Lineage d path ∧ d ∉ path ∧
        u.namespaceOf .outermost d = u.outermostNamespace q ∧
        u.namespaceOf .qualified d = u.qualifiedNamespace q ∧
        ∀ mode : NamespaceMode, u.namespaceOf mode d = mode.label (u.shownNamespaces path)) ∧
      ∀ d q a, u.StandsIn d q → Relation.ReflTransGen u.PassesOver q a → ∀ c, c < u.decls.size →
        (u.moveTo d a).outermostNamespace c = u.outermostNamespace c ∧
        (u.moveTo d a).qualifiedNamespace c = u.qualifiedNamespace c ∧
        ∀ mode, (u.moveTo d a).namespaceOf mode c = u.namespaceOf mode c := by
  have hwf := hu.wellFormed
  refine ⟨?_, ?_, ?_⟩
  · intro c hc
    exact ⟨u.ancestors c, hwf.lineage_ancestors c, hwf.outermostNamespace_eq hc,
      hwf.qualifiedNamespace_eq hc⟩
  · intro d hd h0
    obtain ⟨q, hq, -⟩ := hwf.exists_standsIn hd h0
    -- The question goes to the parent at once, so that the declaration itself has no say.
    have hparent : ∀ mode, u.namespaceOf mode d = u.namespaceAt mode q := by
      intro mode
      rw [namespaceOf, hq]
    have hself : d ∉ u.ancestors d := fun hmem =>
      Nat.lt_irrefl d (hwf.lt_of_encloses ((hwf.mem_ancestors_iff d d).1 hmem))
    exact ⟨q, u.ancestors d, hq, hwf.lineage_ancestors d, hself, hparent .outermost,
      hparent .qualified, hwf.namespaceOf_eq hd⟩
  · intro d q a hd ha c hc
    exact ⟨hwf.namespaceAt_moveTo hd ha hc .outermost, hwf.namespaceAt_moveTo hd ha hc .qualified,
      hwf.namespaceOf_moveTo hd ha hc⟩

/-- The class in the block is shown in three namespaces, and would be if it stood in the innermost
of them. -/
theorem namespaces_follow_lineage_nested :
    Snapshot.nested.load = .ok Snapshot.nested.image ∧
      Snapshot.nested.image.namespaceOf .outermost 7 = "content" ∧
      Snapshot.nested.image.namespaceOf .qualified 7 = "content::internal::<anonymous namespace>" ∧
      ∀ mode, (Snapshot.nested.image.moveTo 7 3).namespaceOf mode 7 =
        Snapshot.nested.image.namespaceOf mode 7 := by
  have hload : Snapshot.nested.load = .ok Snapshot.nested.image := rfl
  obtain ⟨-, hof, hmove⟩ := namespaces_follow_lineage (Snapshot.reachable_of_load hload)
  obtain ⟨q, path, -, hpath, -, -, -, hmode⟩ := hof 7 (by decide) (by decide)
  have hlineage := hpath.unique
    (.within rfl
      (.within rfl
        (.within rfl (.within rfl (.within rfl (.within rfl (.within rfl (.outermost rfl))))))))
  subst hlineage
  have hout : Relation.ReflTransGen Snapshot.nested.image.PassesOver 6 3 :=
    .head (b := 5) ⟨⟨_, rfl, rfl⟩, rfl⟩
      (.head (b := 4) ⟨⟨_, rfl, rfl⟩, rfl⟩ (.single ⟨⟨_, rfl, rfl⟩, rfl⟩))
  exact ⟨hload, hmode .outermost, hmode .qualified, (hmove 7 6 3 rfl hout 7 (by decide)).2.2⟩

end SourceUnit

/-! ## Empty texts -/

theorem shownName_eq_empty_iff (name : Option String) : shownName name = "" ↔ name = some "" := by
  cases name with
  | none => decide
  | some name => rw [shownName, Option.getD_some, Option.some.injEq]

theorem intercalate_eq_empty_iff (names : List String) :
    "::".intercalate names = "" ↔ names = [] ∨ names = [""] := by
  rcases names with - | ⟨first, - | ⟨second, rest⟩⟩
  · simp
  · simp
  · -- From the second name on there is a separator.
    simp [String.append_eq_empty_iff]

namespace NamespaceMode

theorem label_outermost_eq_empty_iff (names : List (Option String)) :
    label .outermost (names.map shownName) = "" ↔ names = [] ∨ names.head? = some (some "") := by
  cases names with
  | nil => simp [label]
  | cons name names =>
    have hlabel : label .outermost ((name :: names).map shownName) = shownName name := rfl
    rw [hlabel, shownName_eq_empty_iff]
    simp

/-- Names are joined with something between them, so the result is empty only without any, or with
one that is empty. -/
theorem label_qualified_eq_empty_iff (names : List (Option String)) :
    label .qualified (names.map shownName) = "" ↔ names = [] ∨ names = [some ""] := by
  have hlabel :
      label .qualified (names.map shownName) = "::".intercalate (names.map shownName) := rfl
  rw [hlabel, intercalate_eq_empty_iff, List.map_eq_nil_iff, List.map_eq_singleton_iff]
  simp [shownName_eq_empty_iff]

end NamespaceMode

theorem Entity.namespaceName?_eq_some_iff (e : Entity) (name : Option String) :
    e.namespaceName? = some name ↔ e = .nameSpace name := by
  cases e <;> simp [namespaceName?]

namespace SourceUnit.WellFormed

variable {u : SourceUnit} (hu : u.WellFormed)
include hu

/-- The names along a lineage are those of the namespaces that enclose the declaration. -/
theorem mem_read_namespaceName? {d : Nat} {name : Option String} :
    name ∈ u.read Entity.namespaceName? (u.ancestors d) ↔
      ∃ a, u.Encloses a d ∧ u.entity? a = some (.nameSpace name) := by
  rw [mem_read]
  constructor
  · rintro ⟨a, ha, e, he, hname⟩
    rw [(e.namespaceName?_eq_some_iff name).1 hname] at he
    exact ⟨a, (hu.mem_ancestors_iff d a).1 ha, he⟩
  · rintro ⟨a, ha, he⟩
    exact ⟨a, (hu.mem_ancestors_iff d a).2 ha, _, he, rfl⟩

/-- A declaration is outside of all namespaces if its lineage has none. -/
theorem outsideNamespaces_iff (d : Nat) :
    u.OutsideNamespaces d ↔ u.read Entity.namespaceName? (u.ancestors d) = [] := by
  rw [List.eq_nil_iff_forall_not_mem]
  constructor
  · intro h name hname
    obtain ⟨a, ha, he⟩ := hu.mem_read_namespaceName?.1 hname
    exact h a ha name he
  · intro h a ha name he
    exact h name (hu.mem_read_namespaceName?.2 ⟨a, ha, he⟩)

end SourceUnit.WellFormed

namespace Snapshot

/-- A class in a namespace whose name is there, but empty. -/
def hollow : Snapshot where
  files := []
  positions := [.invalid]
  decls := [.nameSpace (some "") none, .record "X" (some 0) 0 []]

/-- In a unit that is loaded, the outermost namespace of a declaration is shown as the empty text if
there is no namespace around it, or if the outermost one has the empty name. All its namespaces are
shown as the empty text if there is none, or if there is one only and it has the empty name. -/
theorem namespaceOf_eq_empty_iff {s : Snapshot} {u : SourceUnit} (h : s.load = .ok u) {d : Nat}
    (hd : d < u.decls.size) :
    ∃ path, u.Lineage d path ∧
      (u.namespaceOf .outermost d = "" ↔
        u.OutsideNamespaces d ∨ (u.read Entity.namespaceName? path).head? = some (some "")) ∧
      (u.namespaceOf .qualified d = "" ↔
        u.OutsideNamespaces d ∨ u.read Entity.namespaceName? path = [some ""]) := by
  have hu := (reachable_of_load h).wellFormed
  refine ⟨u.ancestors d, hu.lineage_ancestors d, ?_, ?_⟩
  · rw [hu.namespaceOf_eq hd, hu.outsideNamespaces_iff]
    exact NamespaceMode.label_outermost_eq_empty_iff _
  · rw [hu.namespaceOf_eq hd, hu.outsideNamespaces_iff]
    exact NamespaceMode.label_qualified_eq_empty_iff _

theorem namespaceOf_eq_empty_iff_hollow :
    hollow.load = .ok hollow.image ∧ 2 < hollow.image.decls.size ∧
      ∃ path, hollow.image.Lineage 2 path ∧
        (hollow.image.namespaceOf .outermost 2 = "" ↔ hollow.image.OutsideNamespaces 2 ∨
          (hollow.image.read Entity.namespaceName? path).head? = some (some "")) ∧
        (hollow.image.namespaceOf .qualified 2 = "" ↔ hollow.image.OutsideNamespaces 2 ∨
          hollow.image.read Entity.namespaceName? path = [some ""]) := by
  have hload : hollow.load = .ok hollow.image := rfl
  have hsize : 2 < hollow.image.decls.size := by decide
  exact ⟨hload, hsize, namespaceOf_eq_empty_iff hload hsize⟩

/-- The class is in a namespace, and no namespace is shown for it. -/
theorem hollow_namespaceOf_eq_empty :
    hollow.load = .ok hollow.image ∧ hollow.image.namespaceOf .outermost 2 = "" ∧
      hollow.image.namespaceOf .qualified 2 = "" ∧ ¬ hollow.image.OutsideNamespaces 2 := by
  have hload : hollow.load = .ok hollow.image := rfl
  have hu := (reachable_of_load hload).wellFormed
  have hlineage := (hu.lineage_ancestors 2).unique (.within rfl (.within rfl (.outermost rfl)))
  refine ⟨hload, ?_, ?_, ?_⟩
  · rw [hu.namespaceOf_eq (by decide), hlineage]
    rfl
  · rw [hu.namespaceOf_eq (by decide), hlineage]
    rfl
  · intro hout
    exact hout 1 (.single rfl) (some "") rfl

end Snapshot

end StyleZones

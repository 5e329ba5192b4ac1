import StyleZones.Proofs.Unit.Legible

/-!
# Lineages

A declaration stands in a scope, the scope in a further one, and so on up to the unit itself. The
lineage of a declaration lists these scopes from the unit itself inwards.

* `SourceUnit.Lineage` says so by the parents alone. In a well-formed unit a declaration has one
  lineage (`WellFormed.lineage_iff`), and the scopes in it are those that enclose the declaration
  (`WellFormed.mem_ancestors_iff`).
* Whatever goes from scope to scope folds over the lineage (`Strict.Climbs.eq_foldr`). What is
  collected on the way is what the scopes bring, in order (`Strict.Climbs.eq_read`); what is
  overwritten on the way is in the end what the first of them brings (`Strict.Climbs.eq_head`).
* A declaration can be moved out of scopes that bring nothing, and what is read along any lineage
  stays the same (`WellFormed.read_ancestors_moveTo`).
-/

set_option autoImplicit false

namespace StyleZones

namespace SourceUnit

variable (u : SourceUnit)

/-! ## The scopes around a declaration -/

/-- One declaration stands directly in the other. -/
def StandsIn (d q : Nat) : Prop :=
  u.parent? d = some q

/-- The first declaration is a scope around the second, directly or not. -/
def Encloses (a d : Nat) : Prop :=
  Relation.TransGen u.StandsIn d a

/-- The path leads inwards to the declaration: it begins with what stands in nothing, each entry
stands in the one before it, and the declaration stands in the last. -/
inductive Lineage : Nat → List Nat → Prop
  /-- Around what stands in nothing there is nothing. -/
  | outermost {d : Nat} : u.parent? d = none → Lineage d []
  /-- The scope of a declaration comes after the scopes around it. -/
  | within {d q : Nat} {path : List Nat} : u.StandsIn d q → Lineage q path → Lineage d (path ++ [q])

/-- The scopes around a declaration, from the outermost inwards. -/
def ancestors (d : Nat) : List Nat :=
  (u.scopes d).reverse

/-- What the declarations of a path bring, in order; `pick` says what an entity brings, if
anything. -/
def read {α : Type} (pick : Entity → Option α) (path : List Nat) : List α :=
  (path.filterMap u.entity?).filterMap pick

section Read

variable {u} {α : Type} (pick : Entity → Option α)

@[simp] theorem read_nil : u.read pick [] = [] := rfl

@[simp] theorem read_append (path rest : List Nat) :
    u.read pick (path ++ rest) = u.read pick path ++ u.read pick rest := by
  rw [read, List.filterMap_append, List.filterMap_append]
  rfl

theorem read_singleton {d : Nat} {e : Entity} (he : u.entity? d = some e) :
    u.read pick [d] = (pick e).toList := by
  simp only [read, List.filterMap_cons, he, List.filterMap_nil]
  cases pick e <;> rfl

/-- What is read off a path is what its declarations bring. -/
theorem mem_read {x : α} {path : List Nat} :
    x ∈ u.read pick path ↔ ∃ d ∈ path, ∃ e, u.entity? d = some e ∧ pick e = some x := by
  simp only [read, List.mem_filterMap]
  constructor
  · rintro ⟨e, ⟨d, hd, he⟩, hx⟩
    exact ⟨d, hd, e, he, hx⟩
  · rintro ⟨d, hd, e, he, hx⟩
    exact ⟨e, ⟨d, hd, he⟩, hx⟩

end Read

variable {u}

/-- There is one way inwards at most. -/
theorem Lineage.unique {d : Nat} {path other : List Nat} (h : u.Lineage d path)
    (h' : u.Lineage d other) :
    path = other := by
  induction h generalizing other with
  | outermost hroot =>
    cases h' with
    | outermost => rfl
    | within hstands _ => cases hroot.symm.trans hstands
  | within hstands _ ih =>
    cases h' with
    | outermost hroot => cases hroot.symm.trans hstands
    | within hstands' hother =>
      -- Both ways end with the same scope, since a declaration stands in one scope only.
      obtain rfl := Option.some.inj (hstands.symm.trans hstands')
      rw [ih hother]

theorem ancestors_of_root {d : Nat} (h : u.parent? d = none) : u.ancestors d = [] := by
  rw [ancestors, scopes, Strict.scope?_eq_none h]
  rfl

namespace WellFormed

variable (hu : u.WellFormed)
include hu

/-- The lineage of a declaration is that of its scope, and then the scope. -/
theorem ancestors_of_standsIn {d q : Nat} (h : u.StandsIn d q) :
    u.ancestors d = u.ancestors q ++ [q] := by
  rw [ancestors, scopes, Strict.scope?_eq_some h (hu.parent_lt h)]
  exact List.reverse_cons

theorem lineage_ancestors (d : Nat) : u.Lineage d (u.ancestors d) := by
  -- Scopes have smaller indices than what stands in them.
  induction d using Nat.strongRecOn with
  | ind d ih =>
    cases hq : u.parent? d with
    | none =>
      rw [ancestors_of_root hq]
      exact .outermost hq
    | some q =>
      rw [hu.ancestors_of_standsIn hq]
      exact .within hq (ih q (hu.parent_lt hq))

/-- A declaration has one lineage. -/
theorem lineage_iff (d : Nat) (path : List Nat) : u.Lineage d path ↔ path = u.ancestors d := by
  constructor
  · intro h
    exact h.unique (hu.lineage_ancestors d)
  · rintro rfl
    exact hu.lineage_ancestors d

/-- The scopes of the lineage are those that enclose the declaration. -/
theorem mem_ancestors_iff (d a : Nat) : a ∈ u.ancestors d ↔ u.Encloses a d := by
  constructor
  · intro ha
    induction d using Nat.strongRecOn with
    | ind d ih =>
      cases hq : u.parent? d with
      | none => simp [ancestors_of_root hq] at ha
      | some q =>
        rw [hu.ancestors_of_standsIn hq] at ha
        rcases List.mem_append.1 ha with ha | ha
        · exact .head hq (ih q (hu.parent_lt hq) ha)
        · rw [List.mem_singleton.1 ha]
          exact .single hq
  · intro ha
    induction ha using Relation.TransGen.head_induction_on with
    | single hda => simp [hu.ancestors_of_standsIn hda]
    | head hdq _ ih =>
      rw [hu.ancestors_of_standsIn hdq]
      exact List.mem_append_left _ ih

/-- What encloses a declaration has a smaller index. -/
theorem lt_of_encloses {a d : Nat} (h : u.Encloses a d) : a < d := by
  induction h with
  | single hda => exact hu.parent_lt hda
  | tail _ hba ih => exact Nat.lt_trans (hu.parent_lt hba) ih

/-- Every declaration but the unit itself stands in another one. -/
theorem exists_standsIn {d : Nat} (hd : d < u.decls.size) (h0 : d ≠ 0) :
    ∃ q, u.StandsIn d q ∧ q < u.decls.size := by
  rcases hu.scope_cases hd with ⟨hzero, -, -⟩ | ⟨-, q, -, -, hq, hlt⟩
  · exact absurd hzero h0
  · exact ⟨q, hq, Nat.lt_trans hlt hd⟩

end WellFormed

end SourceUnit

/-! ## Walks outwards as folds over the lineage -/

section Folds

variable {α : Type} (pick : Entity → Option α) (es : List Entity)

theorem foldr_toList_append (found : List α) :
    es.foldr (fun e found => (pick e).toList ++ found) found = es.filterMap pick ++ found := by
  induction es with
  | nil => rfl
  | cons e es ih =>
    rw [List.foldr_cons, ih, List.filterMap_cons]
    cases pick e <;> rfl

theorem foldr_getD (found : α) :
    es.foldr (fun e found => (pick e).getD found) found = (es.filterMap pick).head?.getD found := by
  induction es with
  | nil => rfl
  | cons e es ih =>
    rw [List.foldr_cons, ih, List.filterMap_cons]
    cases pick e <;> rfl

end Folds

namespace Strict.Climbs

variable {u : SourceUnit}

/-- Going outwards from a declaration is folding over its lineage, the innermost scope first. -/
theorem eq_foldr {α : Type} {take : Entity → α → α} {plain : Nat → α → α}
    (hplain : Climbs u take plain) (hu : u.WellFormed) (htake : ∀ found, take .unit found = found)
    {d : Nat} (hd : d < u.decls.size) (found : α) :
    plain d found = ((u.ancestors d ++ [d]).filterMap u.entity?).foldr take found := by
  induction d using Nat.strongRecOn generalizing found with
  | ind d ih =>
    rcases hu.scope_cases hd with ⟨rfl, hunit, hroot⟩ | ⟨e, q, he, hne, hq, hlt⟩
    · rw [hplain.root, SourceUnit.ancestors_of_root hroot]
      simp [hunit, htake]
    · have hpath : (u.ancestors d ++ [d]).filterMap u.entity? =
          (u.ancestors q ++ [q]).filterMap u.entity? ++ [e] := by
        rw [hu.ancestors_of_standsIn hq, List.filterMap_append, List.filterMap_cons_some he]
        rfl
      -- What the declaration itself brings is taken up before its scopes are visited.
      rw [hplain.inner d q e found he hne hq, ih q hlt (Nat.lt_trans hlt hd), hpath,
        List.foldr_append]
      rfl

/-- A walk that puts what it finds in front has in the end all that the scopes bring. -/
theorem eq_read {α : Type} {pick : Entity → Option α} {plain : Nat → List α → List α}
    (hplain : Climbs u (fun e found => (pick e).toList ++ found) plain) (hu : u.WellFormed)
    (hunit : pick .unit = none) {d : Nat} (hd : d < u.decls.size) (found : List α) :
    plain d found = u.read pick (u.ancestors d ++ [d]) ++ found := by
  rw [hplain.eq_foldr hu (by simp [hunit]) hd, foldr_toList_append]
  rfl

/-- A walk that replaces what it has found has in the end what the outermost of the scopes
brings. -/
theorem eq_head {α : Type} {pick : Entity → Option α} {plain : Nat → α → α}
    (hplain : Climbs u (fun e found => (pick e).getD found) plain) (hu : u.WellFormed)
    (hunit : pick .unit = none) {d : Nat} (hd : d < u.decls.size) (found : α) :
    plain d found = (u.read pick (u.ancestors d ++ [d])).head?.getD found := by
  rw [hplain.eq_foldr hu (by simp [hunit]) hd, foldr_getD]
  rfl

end Strict.Climbs

/-! ## Moving a declaration -/

namespace SourceUnit

variable (u : SourceUnit)

/-- The unit in which declaration `d` stands in `q`, and all else is as it was. -/
def moveTo (d q : Nat) : SourceUnit :=
  { u with decls := u.decls.modify d fun decl => { decl with parent := some q } }

/-- One declaration brings nothing and stands in the other. -/
def Passes {α : Type} (pick : Entity → Option α) (x y : Nat) : Prop :=
  u.read pick [x] = [] ∧ u.StandsIn x y

variable {u}

section Move

variable {d q : Nat}

@[simp] theorem decls_size_moveTo : (u.moveTo d q).decls.size = u.decls.size := by
  simp [moveTo]

theorem decls_moveTo_of_ne {c : Nat} (h : c ≠ d) : (u.moveTo d q).decls[c]? = u.decls[c]? := by
  simp [moveTo, Array.getElem?_modify, Ne.symm h]

theorem decls_moveTo_self :
    (u.moveTo d q).decls[d]? = u.decls[d]?.map fun decl => { decl with parent := some q } := by
  simp [moveTo, Array.getElem?_modify]

@[simp] theorem entity?_moveTo (c : Nat) : (u.moveTo d q).entity? c = u.entity? c := by
  by_cases h : c = d
  · subst h
    rw [entity?, decls_moveTo_self, Option.map_map]
    rfl
  · rw [entity?, decls_moveTo_of_ne h]
    rfl

@[simp] theorem simpleName_moveTo (c : Nat) : (u.moveTo d q).simpleName c = u.simpleName c := by
  rw [simpleName, name?_eq_entity, entity?_moveTo, ← name?_eq_entity]
  rfl

@[simp] theorem read_moveTo {α : Type} (pick : Entity → Option α) (path : List Nat) :
    (u.moveTo d q).read pick path = u.read pick path := by
  simp only [read, funext entity?_moveTo]

theorem parent?_moveTo_of_ne {c : Nat} (h : c ≠ d) : (u.moveTo d q).parent? c = u.parent? c := by
  rw [parent?, decls_moveTo_of_ne h]
  rfl

/-- Where a declaration has been moved, it stands in its new scope. -/
theorem standsIn_moveTo {p : Nat} (h : u.StandsIn d p) : (u.moveTo d q).StandsIn d q := by
  obtain ⟨decl, hdecl, -⟩ := Option.bind_eq_some_iff.1 h
  rw [StandsIn, parent?, decls_moveTo_self, hdecl]
  rfl

end Move

namespace WellFormed

variable (hu : u.WellFormed)
include hu

/-- A declaration that is moved to an earlier one leaves the unit well formed. -/
theorem moveTo {d p q : Nat} (hd : u.StandsIn d p) (hlt : q < d) : (u.moveTo d q).WellFormed where
  rooted := by
    rw [decls_size_moveTo]
    exact hu.rooted
  position := hu.position
  decl := by
    intro i decl hdecl
    rw [decls_size_moveTo]
    by_cases hi : i = d
    · subst hi
      rw [decls_moveTo_self, Option.map_eq_some_iff] at hdecl
      obtain ⟨old, hold, rfl⟩ := hdecl
      have hfits := hu.decl i old hold
      have h0 : i ≠ 0 := Nat.ne_of_gt (Nat.lt_of_le_of_lt (Nat.zero_le q) hlt)
      exact ⟨hfits.entity, hfits.unit_iff, fun h => absurd h h0, fun _ => ⟨q, rfl, hlt⟩,
        hfits.base_lt⟩
    · rw [decls_moveTo_of_ne hi] at hdecl
      exact hu.decl i decl hdecl

variable {α : Type} {pick : Entity → Option α}

/-- Scopes that bring nothing can be passed over. -/
theorem read_of_passes {x y : Nat} (h : Relation.ReflTransGen (u.Passes pick) x y) :
    u.read pick (u.ancestors x ++ [x]) = u.read pick (u.ancestors y ++ [y]) := by
  induction h using Relation.ReflTransGen.head_induction_on with
  | refl => rfl
  | head hxz _ ih =>
    obtain ⟨hnothing, hstands⟩ := hxz
    rw [read_append, hnothing, List.append_nil, hu.ancestors_of_standsIn hstands, ih]

/-- Passing over scopes leads to smaller indices. -/
theorem lt_of_passes {d q a : Nat} (hd : u.StandsIn d q)
    (ha : Relation.ReflTransGen (u.Passes pick) q a) : a < d := by
  induction ha with
  | refl => exact hu.parent_lt hd
  | tail _ hyz ih => exact Nat.lt_trans (hu.parent_lt hyz.2) ih

/-- A declaration that is moved out of scopes that bring nothing leaves the unit well formed. -/
theorem moveTo_of_passes {d q a : Nat} (hd : u.StandsIn d q)
    (ha : Relation.ReflTransGen (u.Passes pick) q a) :
    (u.moveTo d a).WellFormed :=
  hu.moveTo hd (hu.lt_of_passes hd ha)

/-- What is read along each lineage is the same after such a move. -/
theorem read_ancestors_moveTo {d q a : Nat} (hd : u.StandsIn d q)
    (ha : Relation.ReflTransGen (u.Passes pick) q a) (c : Nat) :
    u.read pick ((u.moveTo d a).ancestors c) = u.read pick (u.ancestors c) := by
  have hv := hu.moveTo_of_passes hd ha
  induction c using Nat.strongRecOn with
  | ind c ih =>
    by_cases hc : c = d
    · -- The new scope lies outside of the declaration, so that its own lineage has not changed in
      -- the reading.
      subst hc
      rw [hv.ancestors_of_standsIn (standsIn_moveTo hd), hu.ancestors_of_standsIn hd,
        hu.read_of_passes ha, read_append, read_append, ih a (hu.lt_of_passes hd ha)]
    · have hparent := parent?_moveTo_of_ne (u := u) (q := a) hc
      cases hr : u.parent? c with
      | none => rw [ancestors_of_root (hparent.trans hr), ancestors_of_root hr]
      | some r =>
        rw [hv.ancestors_of_standsIn (hparent.trans hr), hu.ancestors_of_standsIn hr, read_append,
          read_append, ih r (hu.parent_lt hr)]

end WellFormed

end SourceUnit

end StyleZones

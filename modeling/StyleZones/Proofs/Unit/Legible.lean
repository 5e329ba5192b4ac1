import StyleZones.Proofs.Unit.Strict

/-!
# Well-formed units are legible

Whatever is asked about an entry of a well-formed unit, a strict reading has the answer that the
plain one has. So nothing is looked up that is not there, and no loop takes more turns than the
index from which it starts allows.

The loops come first, by the two lemmas `Strict.follow_eq_some` and `Strict.climb_eq_some`; the
other questions are put together from them.
-/

set_option autoImplicit false

namespace StyleZones.Strict

variable {u : SourceUnit}

/-! ## Positions -/

theorem exists_position {p : Nat} (hp : p < u.positions.size) :
    ∃ position, u.positions[p]? = some position :=
  ⟨_, Array.getElem?_eq_getElem hp⟩

/-- At a position of the unit, the strict spelling link is the plain one. -/
theorem spellingLink_eq_some {p : Nat} (hp : p < u.positions.size) :
    spellingLink u p = some (u.spellingLink? p) := by
  unfold spellingLink SourceUnit.spellingLink?
  rw [Array.getElem?_eq_getElem hp]
  cases u.positions[p] <;> rfl

theorem expansionLink_eq_some {p : Nat} (hp : p < u.positions.size) :
    expansionLink u p = some (u.expansionLink? p) := by
  unfold expansionLink SourceUnit.expansionLink?
  rw [Array.getElem?_eq_getElem hp]
  cases u.positions[p] <;> rfl

/-- A loop that follows links to smaller indices ends within one turn more than the index where it
starts. -/
theorem follow_eq_some {link : Nat → Option Nat} {strict : Nat → Option (Option Nat)}
    {walk : Nat → Nat} {size : Nat} (hwalk : ∀ p, walk p =
      match link p with
      | some q => if q < p then walk q else p
      | none => p)
    (hstrict : ∀ p, p < size → strict p = some (link p)) (hlt : ∀ p q, link p = some q → q < p)
    {p : Nat} (hp : p < size) : loopWithin (followTurn strict) (p + 1) p = some (walk p) := by
  refine loopWithin_eq_some (· < size) id walk ?_ hp (Nat.lt_succ_self p)
  intro p hp
  cases hl : link p with
  | none =>
    left
    rw [hwalk p, hl, followTurn, hstrict p hp, hl]
    rfl
  | some q =>
    have hqp : q < p := hlt p q hl
    right
    refine ⟨q, ?_, Nat.lt_trans hqp hp, hqp, ?_⟩
    · rw [followTurn, hstrict p hp, hl]
      rfl
    · rw [hwalk p, hl]
      exact (if_pos hqp).symm

/-- The loop along spelling links ends where the plain walk ends, since the links lead to earlier
positions. -/
theorem spelling_eq_some (hu : u.WellFormed) {p : Nat} (hp : p < u.positions.size) :
    spelling u p = some (u.spelling p) :=
  follow_eq_some (SourceUnit.spelling.eq_def u) (fun _ h => spellingLink_eq_some h)
    (SourceUnit.SpellingLink.lt hu.linksDecrease) hp

/-- The loop along expansion links ends where the plain walk ends, for the same reason. -/
theorem expansionRoot_eq_some (hu : u.WellFormed) {p : Nat} (hp : p < u.positions.size) :
    expansionRoot u p = some (u.expansionRoot p) :=
  follow_eq_some (SourceUnit.expansionRoot.eq_def u) (fun _ h => expansionLink_eq_some h)
    (SourceUnit.ExpansionLink.lt hu.linksDecrease) hp

/-- The loop outwards lists the plain chain, and notes of each position whether it is in a macro. -/
theorem expansionChain_eq_some (hu : u.WellFormed) {p : Nat} (hp : p < u.positions.size) :
    expansionChain u p = some ((u.expansionChain p).map fun q => (q, u.isMacro q)) := by
  -- What the loop has seen stands in front of what it will still see.
  refine loopWithin_eq_some (fun s : Nat × List (Nat × Bool) => s.1 < u.positions.size) Prod.fst
    (fun s => s.2 ++ (u.expansionChain s.1).map fun q => (q, u.isMacro q)) ?_ hp
      (Nat.lt_succ_self p)
  rintro ⟨p, seen⟩ hp
  have hstrict := expansionLink_eq_some hp
  cases hl : u.expansionLink? p with
  | none =>
    left
    simp [chainTurn, hstrict, hl, SourceUnit.expansionChain, SourceUnit.isMacro]
  | some q =>
    have hqp : q < p := SourceUnit.ExpansionLink.lt hu.linksDecrease p q hl
    right
    refine ⟨(q, seen ++ [(p, true)]), by simp [chainTurn, hstrict, hl], Nat.lt_trans hqp hp,
      hqp, ?_⟩
    rw [SourceUnit.expansionChain.eq_def u p, hl]
    simp [hqp, SourceUnit.isMacro, hl]

/-- A position in a file refers to a file of the unit, so that the look at the file has an
answer. -/
theorem file_eq_some (hu : u.WellFormed) {p : Nat} (hp : p < u.positions.size) :
    file u p = some (u.file? p) := by
  obtain ⟨position, hposition⟩ := exists_position hp
  unfold file SourceUnit.file?
  cases position with
  | inFile i line column =>
    have hi : i < u.files.size := hu.file_lt hposition
    simp [hposition, hi]
  | inMacro s e => simp [hposition]
  | invalid => simp [hposition]

/-- The expansion links end at a position of the unit, and that position has a strict file. -/
theorem inSystemHeader_eq_some (hu : u.WellFormed) {p : Nat} (hp : p < u.positions.size) :
    inSystemHeader u p = some (u.inSystemHeader p) := by
  have hroot := SourceUnit.expansionRoot_lt_size hu.linksDecrease hp
  simp [inSystemHeader, expansionRoot_eq_some hu hp, file_eq_some hu hroot,
    SourceUnit.inSystemHeader]

/-- So it is with the place where a position is reported, which is in the same file. -/
theorem presumedLocation_eq_some (hu : u.WellFormed) {p : Nat} (hp : p < u.positions.size) :
    presumedLocation u p = some (u.presumedLocation? p) := by
  obtain ⟨position, hposition⟩ :=
    exists_position (SourceUnit.expansionRoot_lt_size hu.linksDecrease hp)
  unfold presumedLocation SourceUnit.presumedLocation?
  rw [expansionRoot_eq_some hu hp]
  cases position with
  | inFile i line column =>
    have hi : i < u.files.size := hu.file_lt hposition
    simp [hposition, hi]
  | inMacro s e => simp [hposition]
  | invalid => simp [hposition]

/-- The spelling links end at a position of the unit, and the reported place of that one is
known. -/
theorem fileName_eq_some (hu : u.WellFormed) {p : Nat} (hp : p < u.positions.size) :
    fileName u p = some (u.fileName? p) := by
  have hspelling := SourceUnit.spelling_lt_size hu.linksDecrease hp
  simp [fileName, spelling_eq_some hu hp, presumedLocation_eq_some hu hspelling,
    SourceUnit.fileName?]

/-- The positions of the chain are positions of the unit, so that the file name of each can be
asked. -/
theorem inImplementationFile_eq_some (hu : u.WellFormed) {p : Nat} (hp : p < u.positions.size) :
    inImplementationFile u p = some (u.inImplementationFile p) := by
  have hstep : ∀ step ∈ (u.expansionChain p).map fun q => (q, u.isMacro q),
      (do return ((← fileName u step.1).map isImplementationName).getD false : Option Bool) =
        some (((u.fileName? step.1).map isImplementationName).getD false) := by
    intro step hstep
    obtain ⟨q, hq, rfl⟩ := List.mem_map.1 hstep
    simp [fileName_eq_some hu (Nat.lt_of_le_of_lt (SourceUnit.le_of_mem_expansionChain hq) hp)]
  rw [inImplementationFile, expansionChain_eq_some hu hp]
  refine (anyM_eq_some hstep).trans ?_
  rw [List.any_map]
  rfl

/-! ## Declarations -/

theorem exists_decl {d : Nat} (hd : d < u.decls.size) : ∃ decl, u.decls[d]? = some decl :=
  ⟨_, Array.getElem?_eq_getElem hd⟩

/-- What a declaration of the unit says of itself is read strictly as it is read plainly. This is so
for its parent, and below for its base classes, its name and the rest. -/
theorem parent_eq_some {d : Nat} (hd : d < u.decls.size) : parent u d = some (u.parent? d) := by
  obtain ⟨decl, hdecl⟩ := exists_decl hd
  simp [parent, SourceUnit.parent?, hdecl]

theorem bases_eq_some {d : Nat} (hd : d < u.decls.size) : bases u d = some (u.bases d) := by
  obtain ⟨decl, hdecl⟩ := exists_decl hd
  simp [bases, SourceUnit.bases, hdecl]

theorem name_eq_some {d : Nat} (hd : d < u.decls.size) : name u d = some (u.name? d) := by
  obtain ⟨decl, hdecl⟩ := exists_decl hd
  simp [name, entity, SourceUnit.name?, hdecl]

theorem position_eq_some {d : Nat} (hd : d < u.decls.size) :
    position u d = some (u.position? d) := by
  obtain ⟨decl, hdecl⟩ := exists_decl hd
  simp [position, entity, SourceUnit.position?, hdecl]

theorem isRecord_eq_some {d : Nat} (hd : d < u.decls.size) :
    isRecord u d = some (u.isRecord d) := by
  obtain ⟨decl, hdecl⟩ := exists_decl hd
  simp [isRecord, entity, SourceUnit.isRecord, hdecl]

theorem simpleName_eq_some {d : Nat} (hd : d < u.decls.size) :
    simpleName u d = some (u.simpleName d) := by
  rw [simpleName, name_eq_some hd]
  rfl

/-! ## Scopes -/

/-- A parent that is earlier is taken for the scope. -/
theorem scope?_eq_some {d q : Nat} (h : u.parent? d = some q) (hlt : q < d) :
    u.scope? d = some ⟨q, hlt⟩ := by
  simp [SourceUnit.scope?, h, hlt]

theorem scope?_eq_none {d : Nat} (h : u.parent? d = none) : u.scope? d = none := by
  simp [SourceUnit.scope?, h]

/-- A function that goes from scope to scope like a loop does: at the unit itself there is nothing
more to find, and elsewhere it takes up what the scope brings and goes on with the scope around
it. -/
structure Climbs {α : Type} (u : SourceUnit) (take : Entity → α → α) (plain : Nat → α → α) :
    Prop where
  /-- At the unit itself all is found. -/
  root : ∀ found, plain 0 found = found
  /-- Any other scope brings something and hands it on outwards. -/
  inner : ∀ d q e found, u.entity? d = some e → e ≠ .unit → u.parent? d = some q →
    plain d found = plain q (take e found)

/-- A loop from scope to scope ends within one turn more than the index of the first scope, and
finds what the function finds that goes the same way. -/
theorem climb_eq_some {α : Type} {take : Entity → α → α} {plain : Nat → α → α} (hu : u.WellFormed)
    (hplain : Climbs u take plain) {scope : Option Nat} {n : Nat}
    (hscope : ∀ d ∈ scope, d < u.decls.size) (hn : scope.getD 0 < n) (found : α) :
    loopWithin (climbTurn u take) n (scope, found) = some (scope.elim found (plain · found)) := by
  refine loopWithin_eq_some (fun s : Option Nat × α => ∀ d ∈ s.1, d < u.decls.size)
    (fun s => s.1.getD 0)
    (fun s => s.1.elim s.2 (plain · s.2)) ?_ hscope hn
  rintro ⟨scope, found⟩ hscope
  cases scope with
  | none => exact Or.inl rfl
  | some d =>
    have hd : d < u.decls.size := hscope d rfl
    rcases hu.scope_cases hd with ⟨rfl, hunit, -⟩ | ⟨e, q, he, hne, hq, hlt⟩
    · -- Only here does the loop end: the chain of scopes leads to the unit itself.
      left
      have hstrict : entity u 0 = some .unit := hunit
      simp [climbTurn, hstrict, hplain.root]
    · right
      have hstrict : entity u d = some e := he
      refine ⟨(some q, take e found), ?_, ?_, hlt, (hplain.inner d q e found he hne hq).symm⟩
      · cases e with
        | unit => exact absurd rfl hne
        | _ => simp [climbTurn, hstrict, parent_eq_some hd, hq]
      · intro r hr
        obtain rfl := Option.some.inj hr
        exact Nat.lt_trans hlt hd

/-- The labels of a scope and of the scopes around it, put in front of `inner`. -/
def labelsFrom (u : SourceUnit) (d : Nat) (inner : List String) : List String :=
  match u.entity? d with
  | some .unit => inner
  | some e => u.labelsAround d (takeLabel e inner)
  | none => inner

/-- The labels in front of a name are those of the parent and of the scopes around it. -/
theorem labelsAround_eq (hu : u.WellFormed) (d : Nat) (inner : List String) :
    u.labelsAround d inner = (u.parent? d).elim inner (labelsFrom u · inner) := by
  rw [SourceUnit.labelsAround.eq_def]
  cases hq : u.parent? d with
  | none =>
    rw [scope?_eq_none hq]
    rfl
  | some q =>
    rw [scope?_eq_some hq (hu.parent_lt hq)]
    rfl

/-- Labels are put in front of the others, scope by scope. -/
theorem climbs_labelsFrom (hu : u.WellFormed) : Climbs u takeLabel (labelsFrom u) where
  root := by
    intro inner
    rw [labelsFrom, hu.entity?_root.1]
  inner := by
    intro d q e inner he hne hq
    have hlabels := labelsAround_eq hu d (takeLabel e inner)
    rw [hq] at hlabels
    cases e with
    | unit => exact absurd rfl hne
    | _ =>
      rw [labelsFrom, he]
      exact hlabels

/-- The outermost namespace is what the last scope has overwritten it with. -/
theorem climbs_outermostFrom (hu : u.WellFormed) : Climbs u takeOutermost u.outermostFrom where
  root := by
    intro found
    rw [SourceUnit.outermostFrom.eq_def, scope?_eq_none hu.entity?_root.2, SourceUnit.displayName?,
      hu.entity?_root.1]
    rfl
  inner := by
    intro d q e found he _ hq
    rw [SourceUnit.outermostFrom.eq_def, scope?_eq_some hq (hu.parent_lt hq),
      SourceUnit.displayName?, he]
    rfl

/-- Namespaces are put in front of the others, scope by scope. -/
theorem climbs_namespacesFrom (hu : u.WellFormed) : Climbs u takeNamespace u.namespacesFrom where
  root := by
    intro inner
    rw [SourceUnit.namespacesFrom.eq_def, scope?_eq_none hu.entity?_root.2, SourceUnit.displayName?,
      hu.entity?_root.1]
    rfl
  inner := by
    intro d q e inner he _ hq
    rw [SourceUnit.namespacesFrom.eq_def, scope?_eq_some hq (hu.parent_lt hq),
      SourceUnit.displayName?, he]
    rfl

/-- The loop for a qualified name starts at the parent, which is earlier than the declaration, and
has turns enough. -/
theorem qualifiedName_eq_some (hu : u.WellFormed) {d : Nat} (hd : d < u.decls.size) :
    qualifiedName u d = some (u.qualifiedName d) := by
  -- The loop starts at the scope of the declaration, if it has one.
  have hloop : loopWithin (climbTurn u takeLabel) (d + 1) (u.parent? d, [u.simpleName d]) =
      some (u.labelsAround d [u.simpleName d]) := by
    rw [labelsAround_eq hu]
    refine climb_eq_some hu (climbs_labelsFrom hu) ?_ ?_ _
    · intro q hq
      exact Nat.lt_trans (hu.parent_lt hq) hd
    · cases hq : u.parent? d with
      | none => exact Nat.succ_pos d
      | some q => exact Nat.lt_succ_of_lt (hu.parent_lt hq)
  simp only [qualifiedName, simpleName_eq_some hd, parent_eq_some hd, Option.bind_eq_bind,
    Option.bind_some, hloop, Option.pure_def, SourceUnit.qualifiedName]

/-- The loops for a namespace start at the scope itself, and have just turns enough. -/
theorem outermostNamespace_eq_some (hu : u.WellFormed) {d : Nat} (hd : d < u.decls.size) :
    outermostNamespace u d = some (u.outermostNamespace d) := by
  refine climb_eq_some hu (climbs_outermostFrom hu) ?_ (Nat.lt_succ_self d) ""
  intro r hr
  exact Option.some.inj hr ▸ hd

theorem qualifiedNamespace_eq_some (hu : u.WellFormed) {d : Nat} (hd : d < u.decls.size) :
    qualifiedNamespace u d = some (u.qualifiedNamespace d) := by
  have hloop : loopWithin (climbTurn u takeNamespace) (d + 1) (some d, []) =
      some (u.namespacesFrom d []) := by
    refine climb_eq_some hu (climbs_namespacesFrom hu) ?_ (Nat.lt_succ_self d) []
    intro r hr
    exact Option.some.inj hr ▸ hd
  rw [qualifiedNamespace, hloop]
  rfl

/-- The namespace of a declaration is asked of its parent, which is in the unit as well. -/
theorem namespaceOf_eq_some (hu : u.WellFormed) (mode : NamespaceMode) {d : Nat}
    (hd : d < u.decls.size) :
    namespaceOf u mode d = some (u.namespaceOf mode d) := by
  unfold namespaceOf SourceUnit.namespaceOf
  rw [parent_eq_some hd]
  cases hq : u.parent? d with
  | none => rfl
  | some q =>
    have hscope : q < u.decls.size := Nat.lt_trans (hu.parent_lt hq) hd
    cases mode with
    | outermost => exact outermostNamespace_eq_some hu hscope
    | qualified => exact qualifiedNamespace_eq_some hu hscope

/-- The search for a name looks at declarations of the unit only, whichever handles it goes
through. -/
theorem find_eq_some (hu : u.WellFormed) (name : String) : find u name = some (u.find? name) := by
  refine findM?_eq_some ?_
  intro d hd
  simp [qualifiedName_eq_some hu (Handle.lt_of_mem_map_word hd)]

/-! ## Base classes -/

/-- Base classes are declarations of the unit, so that each can be asked whether it is a record. -/
theorem recordBases_eq_some (hu : u.WellFormed) {d : Nat} (hd : d < u.decls.size) :
    recordBases u d = some (u.recordBases d) := by
  have hbases : ∀ b ∈ (u.bases d).filterMap id, isRecord u b = some (u.isRecord b) := by
    intro b hb
    obtain ⟨base, hbase, rfl⟩ := List.mem_filterMap.1 hb
    exact isRecord_eq_some (hu.base_lt hbase)
  rw [recordBases, bases_eq_some hd]
  exact filterM_eq_some hbases

/-- The record base classes of a declaration are declarations of the unit. -/
theorem recordBases_lt (hu : u.WellFormed) {d b : Nat} (hb : b ∈ u.recordBases d) :
    b < u.decls.size := by
  obtain ⟨hmem, -⟩ := List.mem_filter.1 hb
  obtain ⟨base, hbase, rfl⟩ := List.mem_filterMap.1 hmem
  exact hu.base_lt hbase

/-- A search that starts with declarations of the unit does not leave it, and has the plain
answer. -/
theorem searchBases_eq_some (hu : u.WellFormed) {strict : Nat → Option Bool} {hit : Nat → Bool}
    (hstrict : ∀ d, d < u.decls.size → strict d = some (hit d)) (unmet todo : List Nat)
    (htodo : ∀ d ∈ todo, d < u.decls.size) :
    searchBases u strict unmet todo = some (u.searchBases hit unmet todo) := by
  fun_induction SourceUnit.searchBases u hit unmet todo with
  | case1 unmet => simp [searchBases]
  | case2 unmet d rest hmem ih =>
    have hd : d < u.decls.size := htodo d List.mem_cons_self
    rw [searchBases, dif_pos hmem, hstrict d hd, recordBases_eq_some hu hd]
    cases hhit : hit d with
    | true => rfl
    | false =>
      -- What comes to the list are records, and these are declarations of the unit.
      refine ih fun b hb => ?_
      rcases List.mem_append.1 hb with hb | hb
      · exact recordBases_lt hu hb
      · exact htodo b (List.mem_cons_of_mem d hb)
  | case3 unmet d rest hmem ih =>
    rw [searchBases, dif_neg hmem]
    exact ih fun b hb => htodo b (List.mem_cons_of_mem d hb)

/-- The search for an ignored base class starts with record base classes, which are in the unit. -/
theorem hasIgnoredBase_eq_some (hu : u.WellFormed) (policy : Policy) {d : Nat}
    (hd : d < u.decls.size) :
    hasIgnoredBase u policy d = some (u.hasIgnoredBase policy d) := by
  have hstrict : ∀ b, b < u.decls.size →
      (qualifiedName u b).map policy.ignoresBase = some (u.isIgnoredBase policy b) := by
    intro b hb
    rw [qualifiedName_eq_some hu hb]
    rfl
  rw [hasIgnoredBase, recordBases_eq_some hu hd]
  exact searchBases_eq_some hu hstrict _ _ fun b hb => recordBases_lt hu hb

end StyleZones.Strict

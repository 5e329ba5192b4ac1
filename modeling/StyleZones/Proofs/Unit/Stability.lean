import StyleZones.Proofs.Unit.Derivation
import StyleZones.Proofs.Unit.WellFormed

/-!
# What stays the same while a unit grows

A unit extends another if the entries of the other are in it, at the same indices, and differ from
what they were at most in further base classes and in the names under which files are spoken of
(`SourceUnit.Extends`). A run of edits leads to such a unit.

All walks over a unit go to smaller indices, so from an entry of the smaller unit they meet entries
of the smaller unit only, and take the same way in both. What they find is the same, up to the two
things that can change:

* the name of a file, which is another only after a line directive about that very file;
* what a declaration derives from, which grows, and only if base classes are added.
-/

set_option autoImplicit false

namespace StyleZones

namespace SourceUnit

/-- The entries of the first unit are in the second, which may have given them base classes and
other names. -/
structure Extends (u v : SourceUnit) : Prop where
  decls_le : u.decls.size ≤ v.decls.size
  entity : ∀ d, d < u.decls.size → v.entity? d = u.entity? d
  parent : ∀ d, d < u.decls.size → v.parent? d = u.parent? d
  bases : ∀ d, d < u.decls.size → u.bases d <+: v.bases d
  position : ∀ p, p < u.positions.size → v.positions[p]? = u.positions[p]?
  file : ∀ (i : Nat) (f : SourceFile), u.files[i]? = some f →
    ∃ name, v.files[i]? = some (f.renamed name)

variable {u v : SourceUnit}

/-- A run of edits adds to the base classes of a declaration, at the end, what it adds to this very
declaration. -/
theorem bases_applyAll (es : List Edit) {d : Nat} (hd : d < u.decls.size) :
    (u.applyAll es).bases d = u.bases d ++ Edit.addedBases d es := by
  unfold bases
  rw [u.decls_applyAll es hd, Array.getElem?_eq_getElem hd]
  rfl

/-- A run of edits leads to a unit that extends the one before. -/
theorem extends_applyAll (u : SourceUnit) (es : List Edit) : u.Extends (u.applyAll es) where
  decls_le := u.decls_size_le_applyAll es
  entity := by
    intro d hd
    unfold entity?
    rw [u.decls_applyAll es hd, Option.map_map]
    rfl
  parent := by
    intro d hd
    unfold parent?
    rw [u.decls_applyAll es hd, Option.bind_map]
    rfl
  bases := by
    intro d hd
    rw [bases_applyAll es hd]
    exact List.prefix_append _ _
  position := fun p hp => u.positions_applyAll es hp
  file := by
    intro i f hf
    obtain ⟨hi, -⟩ := Array.getElem?_eq_some_iff.1 hf
    exact ⟨Edit.lastName i es, by rw [u.files_applyAll es hi, hf, Option.map_some]⟩

/-! ## Declarations -/

namespace Extends

variable (h : u.Extends v)
include h

/-- What a declaration says of itself stays: its name, and below its position and its kind. -/
theorem name?_eq {d : Nat} (hd : d < u.decls.size) : v.name? d = u.name? d := by
  rw [name?_eq_entity, name?_eq_entity, h.entity d hd]

theorem position?_eq {d : Nat} (hd : d < u.decls.size) : v.position? d = u.position? d := by
  rw [position?_eq_entity, position?_eq_entity, h.entity d hd]

theorem isRecord_eq {d : Nat} (hd : d < u.decls.size) : v.isRecord d = u.isRecord d := by
  rw [isRecord_eq_entity, isRecord_eq_entity, h.entity d hd]

theorem isTag_eq {d : Nat} (hd : d < u.decls.size) : v.isTag d = u.isTag d := by
  rw [isTag_eq_entity, isTag_eq_entity, h.entity d hd]

theorem simpleName_eq {d : Nat} (hd : d < u.decls.size) : v.simpleName d = u.simpleName d := by
  rw [simpleName, h.name?_eq hd, simpleName]

/-- A declaration stays in its scope. -/
theorem scope?_eq {d : Nat} (hd : d < u.decls.size) : v.scope? d = u.scope? d := by
  unfold scope?
  rw [h.parent d hd]

theorem displayName?_eq {d : Nat} (hd : d < u.decls.size) :
    v.displayName? d = u.displayName? d := by
  rw [displayName?, h.entity d hd, displayName?]

/-- The labels in front of a name stay, since the scopes around a declaration are earlier ones. -/
theorem labelsAround_eq {d : Nat} (hd : d < u.decls.size) (inner : List String) :
    v.labelsAround d inner = u.labelsAround d inner := by
  induction d using Nat.strongRecOn generalizing inner with
  | ind d ih =>
    rw [labelsAround.eq_def v, labelsAround.eq_def u, h.scope?_eq hd]
    cases u.scope? d with
    | none => rfl
    | some scope =>
      obtain ⟨q, hlt⟩ := scope
      -- The scope has a smaller index, so it is a declaration of the smaller unit.
      have hq : q < u.decls.size := Nat.lt_trans hlt hd
      simp only [h.entity q hq]
      cases u.entity? q with
      | none => rfl
      | some entity =>
        cases entity with
        | unit => rfl
        | _ => exact ih q hlt hq _

/-- A declaration keeps its qualified name. -/
theorem qualifiedName_eq {d : Nat} (hd : d < u.decls.size) :
    v.qualifiedName d = u.qualifiedName d := by
  rw [qualifiedName, h.labelsAround_eq hd, h.simpleName_eq hd, qualifiedName]

theorem outermostFrom_eq {d : Nat} (hd : d < u.decls.size) (found : String) :
    v.outermostFrom d found = u.outermostFrom d found := by
  induction d using Nat.strongRecOn generalizing found with
  | ind d ih =>
    rw [outermostFrom.eq_def v, outermostFrom.eq_def u, h.scope?_eq hd, h.displayName?_eq hd]
    cases u.scope? d with
    | none => rfl
    | some scope => exact ih scope.1 scope.2 (Nat.lt_trans scope.2 hd) _

theorem namespacesFrom_eq {d : Nat} (hd : d < u.decls.size) (inner : List String) :
    v.namespacesFrom d inner = u.namespacesFrom d inner := by
  induction d using Nat.strongRecOn generalizing inner with
  | ind d ih =>
    rw [namespacesFrom.eq_def v, namespacesFrom.eq_def u, h.scope?_eq hd, h.displayName?_eq hd]
    cases u.scope? d with
    | none => rfl
    | some scope => exact ih scope.1 scope.2 (Nat.lt_trans scope.2 hd) _

/-- A declaration stays in its namespace, whichever way that is shown. -/
theorem namespaceOf_eq (hu : u.WellFormed) (mode : NamespaceMode) {d : Nat}
    (hd : d < u.decls.size) :
    v.namespaceOf mode d = u.namespaceOf mode d := by
  unfold namespaceOf
  rw [h.parent d hd]
  cases hparent : u.parent? d with
  | none => rfl
  | some q =>
    have hq : q < u.decls.size := Nat.lt_trans (hu.parent_lt hparent) hd
    cases mode with
    | outermost => exact h.outermostFrom_eq hq ""
    | qualified =>
      show scopeSeparator.intercalate (v.namespacesFrom q []) = _
      rw [h.namespacesFrom_eq hq]
      rfl

/-- The indices of the larger unit are those of the smaller one and then further ones. -/
theorem exists_range'_eq_append (k : Nat) :
    ∃ more, List.range' k (v.decls.size - k) = List.range' k (u.decls.size - k) ++ more := by
  obtain ⟨n, hn⟩ := Nat.exists_eq_add_of_le (Nat.sub_le_sub_right h.decls_le k)
  exact ⟨_, by rw [hn, List.range'_append_1.symm]⟩

/-- New classes and enumerations are listed after the old ones. -/
theorem tags_prefix : u.tags <+: v.tags := by
  obtain ⟨more, hmore⟩ := h.exists_range'_eq_append 0
  rw [Nat.sub_zero, Nat.sub_zero, ← List.range_eq_range', ← List.range_eq_range'] at hmore
  have htags :
      (List.range u.decls.size).filter v.isTag = (List.range u.decls.size).filter u.isTag :=
    List.filter_congr fun d hd => h.isTag_eq (List.mem_range.1 hd)
  rw [tags, tags, hmore, List.filter_append, htags]
  exact (List.prefix_append _ _).map _

/-- A declaration that is found by its name is still found, although there may be others of this
name by now. -/
theorem find?_eq_some {name : String} {d : Nat} (hd : u.find? name = some d) :
    v.find? name = some d := by
  obtain ⟨more, hmore⟩ := h.exists_range'_eq_append 1
  -- All handles of the smaller unit lead to its declarations, whose names are the same.
  have hsame : ((List.range' 1 (u.decls.size - 1)).map Handle.word).find?
      (fun d => v.qualifiedName d = name) = some d := by
    rw [← hd, find?, ← List.head?_filter, ← List.head?_filter]
    refine congrArg List.head? (List.filter_congr fun e he => ?_)
    rw [h.qualifiedName_eq (Handle.lt_of_mem_map_word he)]
  rw [find?, hmore, List.map_append, List.find?_append, hsame, Option.some_or]

/-! ## Positions -/

omit h in
/-- Two walks along links to smaller places go the same way while the links are the same. -/
theorem walk_congr {link link' : Nat → Option Nat} {walk walk' : Nat → Nat} {size : Nat}
    (hwalk : ∀ p, walk p =
      match link p with
      | some q => if q < p then walk q else p
      | none => p)
    (hwalk' : ∀ p, walk' p =
      match link' p with
      | some q => if q < p then walk' q else p
      | none => p)
    (hlink : ∀ p, p < size → link' p = link p) {p : Nat} (hp : p < size) : walk' p = walk p := by
  induction p using Nat.strongRecOn with
  | ind p ih =>
    rw [hwalk p, hwalk' p, hlink p hp]
    cases link p with
    | none => rfl
    | some q =>
      by_cases hlt : q < p
      · simp only [hlt, if_true]
        exact ih q hlt (Nat.lt_trans hlt hp)
      · simp only [hlt, if_false]

theorem spellingLink?_eq {p : Nat} (hp : p < u.positions.size) :
    v.spellingLink? p = u.spellingLink? p := by
  unfold spellingLink?
  rw [h.position p hp]

theorem expansionLink?_eq {p : Nat} (hp : p < u.positions.size) :
    v.expansionLink? p = u.expansionLink? p := by
  unfold expansionLink?
  rw [h.position p hp]

theorem spelling_eq {p : Nat} (hp : p < u.positions.size) : v.spelling p = u.spelling p :=
  walk_congr (spelling.eq_def u) (spelling.eq_def v) (fun _ => h.spellingLink?_eq) hp

theorem expansionRoot_eq {p : Nat} (hp : p < u.positions.size) :
    v.expansionRoot p = u.expansionRoot p :=
  walk_congr (expansionRoot.eq_def u) (expansionRoot.eq_def v) (fun _ => h.expansionLink?_eq) hp

/-- The way outwards from a position stays, since links lead to earlier positions. -/
theorem expansionChain_eq {p : Nat} (hp : p < u.positions.size) :
    v.expansionChain p = u.expansionChain p := by
  induction p using Nat.strongRecOn with
  | ind p ih =>
    rw [expansionChain.eq_def v, expansionChain.eq_def u, h.expansionLink?_eq hp]
    cases u.expansionLink? p with
    | none => rfl
    | some q =>
      by_cases hlt : q < p
      · simp only [hlt, if_true, ih q hlt (Nat.lt_trans hlt hp)]
      · simp only [hlt, if_false]

/-- At a position there is the same file, perhaps under another name. -/
theorem file?_eq (hu : u.WellFormed) {p : Nat} (hp : p < u.positions.size) :
    ∃ name, v.file? p = (u.file? p).map (·.renamed name) := by
  unfold file?
  rw [h.position p hp]
  cases hposition : u.positions[p]? with
  | none => exact ⟨none, rfl⟩
  | some position =>
    cases position with
    | inFile i line column =>
      have hfile := Array.getElem?_eq_getElem (hu.file_lt hposition)
      obtain ⟨name, hname⟩ := h.file i _ hfile
      exact ⟨name, by simp only [hname, hfile, Option.map_some]⟩
    | inMacro s e => exact ⟨none, rfl⟩
    | invalid => exact ⟨none, rfl⟩

/-- Whether a position is in a system header stays, since a file is marked when it is added. -/
theorem inSystemHeader_eq (hu : u.WellFormed) {p : Nat} (hp : p < u.positions.size) :
    v.inSystemHeader p = u.inSystemHeader p := by
  have hroot : u.expansionRoot p < u.positions.size := expansionRoot_lt_size hu.linksDecrease hp
  obtain ⟨name, hname⟩ := h.file?_eq hu hroot
  unfold inSystemHeader
  rw [h.expansionRoot_eq hp, hname, Option.map_map]
  rfl

/-- A position is reported at the same line and column. -/
theorem presumedLine_eq (hu : u.WellFormed) {p : Nat} (hp : p < u.positions.size) :
    (v.presumedLocation? p).map (fun l => (l.line, l.column)) =
      (u.presumedLocation? p).map fun l => (l.line, l.column) := by
  have hroot : u.expansionRoot p < u.positions.size := expansionRoot_lt_size hu.linksDecrease hp
  unfold presumedLocation?
  rw [h.expansionRoot_eq hp, h.position _ hroot]
  cases hposition : u.positions[u.expansionRoot p]? with
  | none => rfl
  | some position =>
    cases position with
    | inFile i line column =>
      have hfile := Array.getElem?_eq_getElem (hu.file_lt hposition)
      obtain ⟨name, hname⟩ := h.file i _ hfile
      simp only [hname, hfile, Option.map_some]
    | inMacro s e => rfl
    | invalid => rfl

/-! ## Base classes -/

/-- What a declaration derives from, it derives from in the larger unit. -/
theorem derives {d b : Nat} (hdb : u.Derives d b) : v.Derives d b := by
  obtain ⟨hbase, hrecord⟩ := (u.derives_iff d b).1 hdb
  have hd : d < u.decls.size := by
    refine Decidable.byContradiction fun hd => ?_
    simp [SourceUnit.bases, hd] at hbase
  refine (v.derives_iff d b).2 ⟨(h.bases d hd).subset hbase, ?_⟩
  rw [h.isRecord_eq (lt_of_isRecord hrecord)]
  exact hrecord

theorem isIgnoredBase_eq (p : Policy) {b : Nat} (hb : b < u.decls.size) :
    v.isIgnoredBase p b = u.isIgnoredBase p b := by
  rw [isIgnoredBase, h.qualifiedName_eq hb, isIgnoredBase]

/-- An ignored base class that was found is found again. -/
theorem hasIgnoredBase {p : Policy} {d : Nat} (hd : u.hasIgnoredBase p d = true) :
    v.hasIgnoredBase p d = true := by
  obtain ⟨b, hpath, hne, hhit⟩ := (hasIgnoredBase_iff p d).1 hd
  have hb : b < u.decls.size := by
    obtain ⟨m, -, hmb⟩ := Relation.TransGen.tail'_iff.1 hpath
    exact Derives.lt hmb
  refine (hasIgnoredBase_iff p d).2 ⟨b, ?_, hne, by rwa [h.isIgnoredBase_eq p hb]⟩
  exact Relation.TransGen.mono (fun _ _ => h.derives) d b hpath

/-- With the same base classes, a declaration derives from the same. -/
theorem hasIgnoredBase_eq (hu : u.WellFormed)
    (hbases : ∀ d, d < u.decls.size → v.bases d = u.bases d) (p : Policy) {d : Nat}
    (hd : d < u.decls.size) : v.hasIgnoredBase p d = u.hasIgnoredBase p d := by
  -- A step from a declaration of the smaller unit leads to one of the smaller unit.
  have hback : ∀ a b, a < u.decls.size → v.Derives a b → u.Derives a b := by
    intro a b ha hab
    obtain ⟨hbase, hrecord⟩ := (v.derives_iff a b).1 hab
    rw [hbases a ha] at hbase
    rw [h.isRecord_eq (hu.base_lt hbase)] at hrecord
    exact (u.derives_iff a b).2 ⟨hbase, hrecord⟩
  have hpath : ∀ b, Relation.TransGen v.Derives d b → Relation.TransGen u.Derives d b := by
    intro b hb
    induction hb with
    | single hdb => exact .single (hback d _ hd hdb)
    | tail hdm hmb ih =>
      obtain ⟨k, -, hkm⟩ := Relation.TransGen.tail'_iff.1 ih
      exact ih.tail (hback _ _ (Derives.lt hkm) hmb)
  refine Bool.eq_iff_iff.2 ⟨fun hv => ?_, h.hasIgnoredBase⟩
  obtain ⟨b, hdb, hne, hhit⟩ := (hasIgnoredBase_iff p d).1 hv
  have hu' := hpath b hdb
  obtain ⟨m, -, hmb⟩ := Relation.TransGen.tail'_iff.1 hu'
  exact (hasIgnoredBase_iff p d).2 ⟨b, hu', hne, by rwa [← h.isIgnoredBase_eq p (Derives.lt hmb)]⟩

end Extends

/-! ## Names of files -/

/-- Some line directive of the run is about the file in which the position stands. -/
def RenamedAt (u : SourceUnit) (es : List Edit) (p : Nat) : Prop :=
  ∃ file line column name, u.positions[p]? = some (.inFile file line column) ∧
    Edit.lineDirective file name ∈ es

/-- The location that is reported for a position is another only after a line directive about the
file at the end of its expansion links. -/
theorem presumedLocation?_applyAll (hu : u.WellFormed) {es : List Edit} {p : Nat}
    (hp : p < u.positions.size) (hnames : ¬ u.RenamedAt es (u.expansionRoot p)) :
    (u.applyAll es).presumedLocation? p = u.presumedLocation? p := by
  have h := u.extends_applyAll es
  have hroot : u.expansionRoot p < u.positions.size := expansionRoot_lt_size hu.linksDecrease hp
  unfold presumedLocation?
  rw [h.expansionRoot_eq hp, h.position _ hroot]
  cases hposition : u.positions[u.expansionRoot p]? with
  | none => rfl
  | some position =>
    cases position with
    | inFile i line column =>
      -- Without a line directive about it, the file is the very same entry.
      have hnone : Edit.lastName i es = none :=
        Edit.lastName_eq_none fun name hname => hnames ⟨i, line, column, name, hposition, hname⟩
      have hfile := u.files_applyAll es (hu.file_lt hposition)
      simp only [hnone, SourceFile.renamed_none, Option.map_id'] at hfile
      simp only [hfile]
    | inMacro s e => rfl
    | invalid => rfl

/-- The name of the file in which a text was typed is another only after a line directive about this
file. -/
theorem fileName?_applyAll (hu : u.WellFormed) {es : List Edit} {p : Nat}
    (hp : p < u.positions.size) (hnames : ¬ u.RenamedAt es (u.spelling p)) :
    (u.applyAll es).fileName? p = u.fileName? p := by
  have hspelling := spelling_lt_size hu.linksDecrease hp
  unfold fileName?
  rw [(u.extends_applyAll es).spelling_eq hp, presumedLocation?_applyAll hu hspelling]
  rwa [expansionRoot_spelling hu.linksDecrease]

/-- Whether a text counts as part of an implementation file may change only with the name of a file
along the way outwards. -/
theorem inImplementationFile_applyAll (hu : u.WellFormed) {es : List Edit} {p : Nat}
    (hp : p < u.positions.size)
    (hnames : ∀ q ∈ u.expansionChain p, ¬ u.RenamedAt es (u.spelling q)) :
    (u.applyAll es).inImplementationFile p = u.inImplementationFile p := by
  unfold inImplementationFile
  rw [(u.extends_applyAll es).expansionChain_eq hp, Bool.eq_iff_iff, List.any_eq_true,
    List.any_eq_true]
  refine exists_congr fun q => and_congr_right fun hq => ?_
  rw [fileName?_applyAll hu (Nat.lt_of_le_of_lt (le_of_mem_expansionChain hq) hp) (hnames q hq)]

end SourceUnit

end StyleZones

import StyleZones.Proofs.Loops
import StyleZones.Proofs.Unit.WellFormed
import StyleZones.Snapshot.Load

/-!
# Loading with handles

Loading keeps, for each list of the snapshot, the handles that were given out for its entries. They
follow from the unit alone: the handle at place `j` is the word for entry `j` of the table, or for
entry `j + 1` of the declarations, the first of which is the unit itself. So the three vectors need
not be carried through the proofs.

* `Loading.of u` is the unit `u` with these vectors. The handle at place `j` is the word for `j`, or
  for `j + 1` in the case of a declaration (`Handle.getElem?_words`).
* `Loading.addFile_of`, `Loading.keepPosition_of` and `Loading.keepDecl_of`: every turn keeps
  loading in this form.
* `Snapshot.reachable_of_load`: a loaded unit is grown by edits that take handles given out before.
  Each turn takes its handles from the vectors, and these hold nothing else.
-/

set_option autoImplicit false

namespace StyleZones

/-! ## Vectors of handles -/

namespace Handle

/-- The words for `n` entries of a table, from entry `k` on. -/
def words (k n : Nat) : Array Nat :=
  ((List.range' k n).map word).toArray

/-- The handle that is kept at a place is the word of the index there. -/
theorem getElem?_words (k n j : Nat) :
    (words k n)[j]? = if j < n then some (word (k + j)) else none := by
  by_cases hj : j < n
  · simp [words, hj]
  · simp [words, hj]

/-- The handle to a further entry goes to the end. -/
theorem words_push (k n : Nat) : (words k n).push (word (k + n)) = words k (n + 1) := by
  simp [words, List.range'_concat]

/-- A handle of the vector is the word for an entry. -/
theorem exists_of_getElem?_words {k n j w : Nat} (h : (words k n)[j]? = some w) :
    ∃ i < k + n, word i = w := by
  rw [getElem?_words] at h
  by_cases hj : j < n
  · rw [if_pos hj] at h
    exact ⟨k + j, by omega, Option.some.inj h⟩
  · rw [if_neg hj] at h
    cases h

end Handle

namespace Loading

/-- The loading of a unit: the handles are the words for its entries, the unit itself left out. -/
def of (u : SourceUnit) : Loading :=
  ⟨u, Handle.words 0 u.files.size, Handle.words 0 u.positions.size,
    Handle.words 1 (u.decls.size - 1)⟩

theorem start_eq_of : start = of .empty := rfl

/-! ## Turns -/

/-- The edits that add the file at place `i`, if `handle` gives the handles. -/
def fileEdits (handle : Nat → Nat) (i : Nat) (file : SourceFile) : List Edit :=
  .addFile file.name file.system :: file.presumedName.toList.map (.lineDirective (handle i))

variable {u : SourceUnit}

/-- A file is added, and its handle is kept. -/
theorem addFile_of (u : SourceUnit) (file : SourceFile) :
    (of u).addFile file = of (u.applyAll (fileEdits Handle.word u.files.size file)) := by
  have hfiles : (Handle.words 0 u.files.size).push (Handle.word u.files.size) =
      Handle.words 0 (u.files.size + 1) := by
    rw [← Handle.words_push, Nat.zero_add]
  obtain ⟨name, system, presumed⟩ := file
  cases presumed with
  | none =>
    simp [addFile, of, fileEdits, SourceUnit.applyAll, SourceUnit.apply, SourceUnit.addFile,
      SourceUnit.nextFile, hfiles]
  | some presumed =>
    simp [addFile, of, fileEdits, SourceUnit.applyAll, SourceUnit.apply, SourceUnit.addFile,
      SourceUnit.renameFile, SourceUnit.nextFile, hfiles]

/-- The handle of a further position is kept. -/
theorem keepPosition_of (u : SourceUnit) (position : Position) :
    { of u with
      unit := u.addPosition position
      positions := (of u).positions.push u.nextPosition } = of (u.addPosition position) := by
  have hpositions : (Handle.words 0 u.positions.size).push u.nextPosition =
      Handle.words 0 (u.positions.size + 1) := by
    rw [← Handle.words_push, Nat.zero_add, SourceUnit.nextPosition]
  simp [of, SourceUnit.addPosition, hpositions]

/-- The handle of a further declaration is kept. The first declaration, which is the unit itself,
has no place. -/
theorem keepDecl_of (hu : 0 < u.decls.size) (parent : Nat) (entity : Entity) :
    { of u with unit := u.addDecl parent entity, decls := (of u).decls.push u.nextDecl } =
      of (u.addDecl parent entity) := by
  obtain ⟨n, hn⟩ : ∃ n, u.decls.size = 1 + n := ⟨u.decls.size - 1, by omega⟩
  have hdecls : (Handle.words 1 n).push u.nextDecl = Handle.words 1 (n + 1) := by
    rw [← Handle.words_push, SourceUnit.nextDecl, hn]
  simp [of, SourceUnit.addDecl, hn, hdecls, Nat.add_comm]

/-- A further base class changes no handle. -/
theorem keepBase_of (u : SourceUnit) (decl : Nat) (base : Option Nat) :
    { of u with unit := u.addBase decl base } = of (u.addBase decl base) := by
  simp [of, SourceUnit.addBase]

/-- What holds before a pass and is kept by every turn holds after the pass. -/
theorem pass_invariant {α : Type} {turn : Loading → Nat → α → Except LoadError Loading}
    {inv : Loading → Prop}
    (hturn : ∀ {l l' : Loading} {i : Nat} {a : α}, inv l → turn l i a = .ok l' → inv l')
    {l l' : Loading} {i : Nat} {as : List α} (hl : inv l) (h : pass turn l i as = .ok l') :
    inv l' := by
  induction as generalizing l i with
  | nil => exact Except.ok.inj h ▸ hl
  | cons a as ih =>
    obtain ⟨next, hnext, hrest⟩ := bind_eq_ok_iff.1 h
    exact ih (hturn hl hnext) hrest

/-! ## The handles that a turn takes -/

theorem handleAt_eq_ok_iff {handles : Array Nat} {index : UInt64} {fault : LoadError} {w : Nat} :
    handleAt handles index fault = .ok w ↔ handles[index.toNat]? = some w := by
  unfold handleAt
  cases handles[index.toNat]? with
  | some handle => simp
  | none => simp

/-- A reference to an earlier entry leads to the handle that is kept for it. -/
theorem earlier_eq_ok_iff {handles : Array Nat} {total : Nat} {site : RefSite} {index : UInt64}
    {w : Nat} : earlier handles total site index = .ok w ↔ handles[index.toNat]? = some w := by
  unfold earlier
  cases handles[index.toNat]? with
  | some handle => simp
  | none => by_cases h : index.toNat < total <;> simp [h]

theorem file_standsFor {j w : Nat} (h : (of u).files[j]? = some w) :
    (Handle.file w).StandsFor u := by
  simpa [Handle.StandsFor] using Handle.exists_of_getElem?_words h

theorem position_standsFor {j w : Nat} (h : (of u).positions[j]? = some w) :
    (Handle.position w).StandsFor u := by
  simpa [Handle.StandsFor] using Handle.exists_of_getElem?_words h

/-- A handle that is kept for a declaration stands for a declaration of the unit. -/
theorem decl_standsFor (hu : 0 < u.decls.size) {j w : Nat} (h : (of u).decls[j]? = some w) :
    (Handle.decl w).StandsFor u := by
  obtain ⟨i, hi, hw⟩ := Handle.exists_of_getElem?_words h
  exact ⟨i, by omega, hw⟩

theorem root_standsFor (hu : 0 < u.decls.size) : (Handle.decl 0).StandsFor u :=
  ⟨0, hu, rfl⟩

/-- The edit that adds a position takes handles from the vectors. -/
theorem positionEdit_taken {total i : Nat} {entry : PositionEntry} {e : Edit}
    (h : (of u).positionEdit total i entry = .ok e) :
    (∃ position, u.apply e = u.addPosition position) ∧ ∀ h ∈ e.taken, h.StandsFor u := by
  cases entry with
  | inFile file line column =>
    obtain ⟨f, hf, he⟩ := bind_eq_ok_iff.1 h
    obtain rfl := Except.ok.inj he
    refine ⟨⟨_, rfl⟩, ?_⟩
    simpa [Edit.taken] using file_standsFor (handleAt_eq_ok_iff.1 hf)
  | inMacro spelling expansion =>
    obtain ⟨s, hs, hrest⟩ := bind_eq_ok_iff.1 h
    obtain ⟨x, hx, he⟩ := bind_eq_ok_iff.1 hrest
    obtain rfl := Except.ok.inj he
    refine ⟨⟨_, rfl⟩, ?_⟩
    simpa [Edit.taken] using And.intro (position_standsFor (earlier_eq_ok_iff.1 hs))
      (position_standsFor (earlier_eq_ok_iff.1 hx))
  | invalid =>
    obtain rfl := Except.ok.inj h
    exact ⟨⟨_, rfl⟩, by simp [Edit.taken]⟩

/-- A parent is found among the declarations that have been added, or it is the unit itself. -/
theorem parentDecl_standsFor (hu : 0 < u.decls.size) {total i w : Nat} {parent : Option UInt64}
    (h : (of u).parentDecl total i parent = .ok w) : (Handle.decl w).StandsFor u := by
  cases parent with
  | none =>
    obtain rfl := Except.ok.inj h
    exact root_standsFor hu
  | some index =>
    by_cases hindex : total ≤ index.toNat
    · simp [parentDecl, hindex] at h
    · rw [parentDecl, if_neg hindex] at h
      exact decl_standsFor hu (earlier_eq_ok_iff.1 h)

/-- The edit that adds a declaration takes handles from the vectors, or that to the unit itself. -/
theorem declEdit_taken (hu : 0 < u.decls.size) {total i : Nat} {entry : DeclEntry} {e : Edit}
    (h : (of u).declEdit total i entry = .ok e) :
    (∃ parent entity, u.apply e = u.addDecl parent entity) ∧ ∀ h ∈ e.taken, h.StandsFor u := by
  obtain ⟨parent, hparent, hrest⟩ := bind_eq_ok_iff.1 h
  have hscope := parentDecl_standsFor hu hparent
  cases entry with
  | nameSpace | function | block =>
    obtain rfl := Except.ok.inj hrest
    exact ⟨⟨_, _, rfl⟩, by simpa [Edit.taken] using hscope⟩
  | record | enumeration =>
    obtain ⟨p, hp, he⟩ := bind_eq_ok_iff.1 hrest
    obtain rfl := Except.ok.inj he
    refine ⟨⟨_, _, rfl⟩, ?_⟩
    simpa [Edit.taken] using And.intro hscope (position_standsFor (handleAt_eq_ok_iff.1 hp))

/-- A base class that is known is one of the declarations that have been added. -/
theorem baseDecl_eq_some {l : Loading} {i j w : Nat} {base : Option UInt64}
    (h : l.baseDecl i j base = .ok (some w)) : ∃ k : Nat, l.decls[k]? = some w := by
  cases base with
  | none => cases h
  | some index =>
    obtain ⟨b, hb, hw⟩ := bind_eq_ok_iff.1 h
    obtain rfl := Option.some.inj (Except.ok.inj hw)
    exact ⟨_, handleAt_eq_ok_iff.1 hb⟩

/-! ## A run of edits on handles given out -/

/-- The loading is that of a unit that edits can make. -/
def Sound (l : Loading) : Prop :=
  ∃ u : SourceUnit, u.Reachable ∧ l = of u

theorem Sound.addFile {l : Loading} (hl : l.Sound) (file : SourceFile) :
    (l.addFile file).Sound := by
  obtain ⟨u, hu, rfl⟩ := hl
  refine ⟨_, ?_, addFile_of u file⟩
  have hadded : (u.apply (.addFile file.name file.system)).Reachable :=
    hu.apply (by simp [Edit.taken])
  cases hname : file.presumedName with
  | none =>
    rw [fileEdits, hname]
    exact hadded
  | some name =>
    -- The line directive is about the file that has just been added.
    have hnew : (Handle.file u.nextFile).StandsFor (u.apply (.addFile file.name file.system)) :=
      ⟨u.files.size, by simp [SourceUnit.apply, SourceUnit.addFile], rfl⟩
    rw [fileEdits, hname]
    exact hadded.apply (e := .lineDirective u.nextFile name) (by simpa [Edit.taken] using hnew)

theorem Sound.addPosition {l l' : Loading} {total i : Nat} {entry : PositionEntry} (hl : l.Sound)
    (h : l.addPosition total i entry = .ok l') : l'.Sound := by
  obtain ⟨u, hu, rfl⟩ := hl
  obtain ⟨e, he, hkept⟩ := bind_eq_ok_iff.1 h
  obtain ⟨⟨position, hposition⟩, htaken⟩ := positionEdit_taken he
  refine ⟨u.apply e, hu.apply htaken, ?_⟩
  rw [← Except.ok.inj hkept, hposition, ← keepPosition_of, ← hposition]
  rfl

/-- Adding a declaration takes handles that were handed out before. -/
theorem Sound.addDecl {l l' : Loading} {total i : Nat} {entry : DeclEntry} (hl : l.Sound)
    (h : l.addDecl total i entry = .ok l') : l'.Sound := by
  obtain ⟨u, hu, rfl⟩ := hl
  obtain ⟨e, he, hkept⟩ := bind_eq_ok_iff.1 h
  obtain ⟨⟨parent, entity, hdecl⟩, htaken⟩ := declEdit_taken hu.wellFormed.rooted he
  refine ⟨u.apply e, hu.apply htaken, ?_⟩
  rw [← Except.ok.inj hkept, hdecl, ← keepDecl_of hu.wellFormed.rooted, ← hdecl]
  rfl

theorem Sound.addBase {l l' : Loading} {i j : Nat} {base : Option UInt64} (hl : l.Sound)
    (h : l.addBase i j base = .ok l') : l'.Sound := by
  obtain ⟨u, hu, rfl⟩ := hl
  obtain ⟨b, hb, hkept⟩ := bind_eq_ok_iff.1 h
  obtain rfl := Except.ok.inj hkept
  refine ⟨_, hu.apply (e := .addBase ((of u).decls.getD i 0) b) ?_, keepBase_of u _ b⟩
  have hrooted := hu.wellFormed.rooted
  have howner : (Handle.decl ((of u).decls.getD i 0)).StandsFor u := by
    rw [Array.getD_eq_getD_getElem?]
    cases howner : (of u).decls[i]? with
    | none => exact root_standsFor hrooted
    | some w => exact decl_standsFor hrooted howner
  intro handle hhandle
  rcases List.mem_cons.1 hhandle with rfl | hbase
  · exact howner
  · obtain ⟨w, hw, rfl⟩ := List.mem_map.1 hbase
    obtain rfl := Option.mem_toList.1 hw
    obtain ⟨k, hk⟩ := baseDecl_eq_some hb
    exact decl_standsFor hrooted hk

theorem Sound.addBases {l l' : Loading} {i : Nat} {entry : DeclEntry} (hl : l.Sound)
    (h : l.addBases i entry = .ok l') : l'.Sound :=
  pass_invariant Sound.addBase hl h

end Loading

/-- A loaded unit is grown by edits that take handles given out before. -/
theorem Snapshot.reachable_of_load {s : Snapshot} {u : SourceUnit} (h : s.load = .ok u) :
    u.Reachable := by
  have hfiles : ∀ (files : List SourceFile) {l : Loading}, l.Sound →
      (files.foldl Loading.addFile l).Sound := by
    intro files
    induction files with
    | nil => exact id
    | cons file files ih => exact fun hl => ih (hl.addFile file)
  obtain ⟨positions, hpositions, hrest⟩ := bind_eq_ok_iff.1 h
  obtain ⟨decls, hdecls, hrest⟩ := bind_eq_ok_iff.1 hrest
  obtain ⟨loaded, hbases, hunit⟩ := bind_eq_ok_iff.1 hrest
  have hstart : (s.files.foldl Loading.addFile .start).Sound := hfiles s.files ⟨_, .empty, rfl⟩
  have hsound : loaded.Sound :=
    Loading.pass_invariant Loading.Sound.addBases
      (Loading.pass_invariant Loading.Sound.addDecl
        (Loading.pass_invariant Loading.Sound.addPosition hstart hpositions) hdecls) hbases
  obtain ⟨v, hv, rfl⟩ := hsound
  exact Except.ok.inj hunit ▸ hv

end StyleZones

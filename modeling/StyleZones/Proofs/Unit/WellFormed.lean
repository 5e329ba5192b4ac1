import StyleZones.Proofs.Unit.Growth
import StyleZones.Proofs.Unit.Walks

/-!
# Units that edits can make

The edits of a unit take handles, which lead to entries, and give out a handle to the entry that
they add. A unit is grown by edits that take only handles given out before (`Grown`), the handle to
the unit itself included.

* `SourceUnit.WellFormed` says what every entry of such a unit is like: what it refers to is there,
  and parents and macro links refer to earlier entries.
* `Edit.Valid.change` says what a valid edit does, in five cases, and `WellFormed.change` that each
  of them keeps a unit well formed.
* `Grown.mem_of_standsFor`: the handles given out are the words for the entries of the unit, all of
  them.
* `Grown.wellFormed`: every unit grown by edits is well formed. `SourceUnit.Reachable` leaves the
  handles out.
-/

set_option autoImplicit false

namespace StyleZones

/-! ## Entries that fit into a unit -/

/-- The position can stand at index `i` of a unit with so many files. -/
def Position.FitsAt (files i : Nat) : Position → Prop
  | .inFile file _ _ => file < files
  | .inMacro spelling expansion => spelling < i ∧ expansion < i
  | .invalid => True

/-- The entity can be declared in a unit with so many positions. -/
structure Entity.Fits (positions : Nat) (e : Entity) : Prop where
  /-- Records and enumerations have a position, and nothing else has one. -/
  positioned : e.position.isSome = e.isTag
  /-- The position is one of the unit. -/
  position_lt : ∀ p, e.position = some p → p < positions
  /-- Only the name of a namespace can be empty. -/
  name_ne_empty : e.name = some "" → ∃ name, e = .nameSpace name
  /-- Neither the unit itself nor a block has a name. -/
  name_eq_none : e = .unit ∨ e = .block → e.name = none

/-- The declaration can stand at index `i` of a unit with so many declarations and positions. -/
structure Decl.FitsAt (decls positions i : Nat) (d : Decl) : Prop where
  /-- What is declared fits. -/
  entity : d.entity.Fits positions
  /-- The unit itself comes first, and nowhere else. -/
  unit_iff : d.entity = .unit ↔ i = 0
  /-- The unit itself stands in no declaration. -/
  parent_root : i = 0 → d.parent = none
  /-- Every other declaration stands in an earlier one. -/
  parent_lt : i ≠ 0 → ∃ q, d.parent = some q ∧ q < i
  /-- The known base classes are declarations of the unit. -/
  base_lt : ∀ b, some b ∈ d.bases → b < decls

/-- More positions leave room for what fitted before. -/
theorem Entity.Fits.mono {m n : Nat} (hmn : m ≤ n) {e : Entity} (he : e.Fits m) : e.Fits n where
  positioned := he.positioned
  position_lt := fun p hp => Nat.lt_of_lt_of_le (he.position_lt p hp) hmn
  name_ne_empty := he.name_ne_empty
  name_eq_none := he.name_eq_none

/-- More files leave room for what fitted before. -/
theorem Position.FitsAt.mono {m n i : Nat} (hmn : m ≤ n) {p : Position} (hp : p.FitsAt m i) :
    p.FitsAt n i := by
  cases p with
  | inFile file line column => exact Nat.lt_of_lt_of_le hp hmn
  | inMacro spelling expansion => exact hp
  | invalid => trivial

/-- More declarations and positions leave room for what fitted before. -/
theorem Decl.FitsAt.mono {k l m n i : Nat} (hkl : k ≤ l) (hmn : m ≤ n) {d : Decl}
    (hd : d.FitsAt k m i) : d.FitsAt l n i where
  entity := hd.entity.mono hmn
  unit_iff := hd.unit_iff
  parent_root := hd.parent_root
  parent_lt := hd.parent_lt
  base_lt := fun b hb => Nat.lt_of_lt_of_le (hd.base_lt b hb) hkl

namespace SourceUnit

/-- Every entry of the unit fits where it stands. -/
structure WellFormed (u : SourceUnit) : Prop where
  /-- There is a declaration for the unit itself. -/
  rooted : 0 < u.decls.size
  /-- Every position fits. -/
  position : ∀ (i : Nat) (p : Position), u.positions[i]? = some p → p.FitsAt u.files.size i
  /-- Every declaration fits. -/
  decl : ∀ (i : Nat) (d : Decl), u.decls[i]? = some d → d.FitsAt u.decls.size u.positions.size i

namespace WellFormed

variable {u : SourceUnit}

/-- The links of macro positions lead to earlier positions. -/
theorem linksDecrease (hu : u.WellFormed) : u.LinksDecrease := by
  intro p spelling expansion h
  exact hu.position p _ h

/-- A position in a file stands in a file of the unit. -/
theorem file_lt (hu : u.WellFormed) {p file : Nat} {line column : UInt32}
    (h : u.positions[p]? = some (.inFile file line column)) : file < u.files.size :=
  hu.position p _ h

/-- A declaration is the unit itself, or it stands in an earlier declaration. -/
theorem scope_cases (hu : u.WellFormed) {d : Nat} (hd : d < u.decls.size) :
    (d = 0 ∧ u.entity? d = some .unit ∧ u.parent? d = none) ∨
      ∃ e q, u.entity? d = some e ∧ e ≠ .unit ∧ u.parent? d = some q ∧ q < d := by
  have hdecl := Array.getElem?_eq_getElem hd
  have hfits := hu.decl d _ hdecl
  by_cases h0 : d = 0
  · refine Or.inl ⟨h0, ?_, ?_⟩
    · rw [entity?, hdecl, Option.map_some, hfits.unit_iff.2 h0]
    · rw [parent?, hdecl, Option.bind_some, hfits.parent_root h0]
  · obtain ⟨q, hq, hlt⟩ := hfits.parent_lt h0
    refine Or.inr ⟨u.decls[d].entity, q, ?_, mt hfits.unit_iff.1 h0, ?_, hlt⟩
    · rw [entity?, hdecl, Option.map_some]
    · rw [parent?, hdecl, Option.bind_some, hq]

theorem entity?_root (hu : u.WellFormed) : u.entity? 0 = some .unit ∧ u.parent? 0 = none := by
  rcases hu.scope_cases hu.rooted with ⟨-, hunit, hparent⟩ | ⟨e, q, -, -, -, hlt⟩
  · exact ⟨hunit, hparent⟩
  · exact absurd hlt (Nat.not_lt_zero q)

/-- The declaration that another stands in is an earlier one. -/
theorem parent_lt (hu : u.WellFormed) {d q : Nat} (h : u.parent? d = some q) : q < d := by
  obtain ⟨decl, hdecl, -⟩ := Option.bind_eq_some_iff.1 h
  obtain ⟨hd, -⟩ := Array.getElem?_eq_some_iff.1 hdecl
  rcases hu.scope_cases hd with ⟨-, -, hnone⟩ | ⟨-, r, -, -, hr, hlt⟩
  · rw [hnone] at h
    cases h
  · rw [hr] at h
    exact Option.some.inj h ▸ hlt

/-- The position of a declaration is one of the unit. -/
theorem position_lt (hu : u.WellFormed) {d p : Nat} (h : u.position? d = some p) :
    p < u.positions.size := by
  obtain ⟨decl, hdecl, hp⟩ := Option.bind_eq_some_iff.1 h
  exact (hu.decl d decl hdecl).entity.position_lt p hp

/-- A known base class of a declaration is a declaration of the unit. -/
theorem base_lt (hu : u.WellFormed) {d b : Nat} (h : some b ∈ u.bases d) : b < u.decls.size := by
  unfold bases at h
  cases hdecl : u.decls[d]? with
  | none => simp [hdecl] at h
  | some decl =>
    rw [hdecl] at h
    exact (hu.decl d decl hdecl).base_lt b h

end WellFormed

end SourceUnit

/-! ## Handles -/

namespace Handle

/-- The word for an index is never above it. -/
theorem word_le (i : Nat) : word i ≤ i :=
  Nat.min_le_left i _

/-- The word for an index below the number of words is the index itself. -/
theorem word_eq_self {i : Nat} (hi : i < UInt32.size) : word i = i :=
  Nat.min_eq_left (Nat.le_pred_of_lt hi)

theorem word_lt (i : Nat) : word i < UInt32.size :=
  Nat.lt_of_le_of_lt (Nat.min_le_right i _) (by decide)

/-- The handles that a search goes through lead to declarations. -/
theorem lt_of_mem_map_word {n w : Nat} (hw : w ∈ (List.range' 1 (n - 1)).map word) : w < n := by
  obtain ⟨i, hi, rfl⟩ := List.mem_map.1 hw
  have hrange := List.mem_range'_1.1 hi
  have hle := word_le i
  omega

end Handle

namespace SourceUnit

/-- Every declaration of the unit has a word of its own. -/
def Addressable (u : SourceUnit) : Prop :=
  u.decls.size ≤ UInt32.size

variable {u : SourceUnit}

theorem lt_of_isTag {d : Nat} (h : u.isTag d = true) : d < u.decls.size := by
  refine Nat.lt_of_not_le fun hle => ?_
  rw [isTag, Array.getElem?_eq_none hle] at h
  cases h

namespace Addressable

/-- The handles to the records and enumerations are their indices. -/
theorem tags_eq (hu : u.Addressable) : u.tags = (List.range u.decls.size).filter u.isTag := by
  have hword : ∀ d ∈ (List.range u.decls.size).filter u.isTag, Handle.word d = d := by
    intro d hd
    have hlt := List.mem_range.1 (List.mem_filter.1 hd).1
    exact Handle.word_eq_self (Nat.lt_of_lt_of_le hlt hu)
  rw [tags, List.map_congr_left hword, List.map_id']

theorem nodup_tags (hu : u.Addressable) : u.tags.Nodup := by
  rw [hu.tags_eq]
  exact List.nodup_range.filter _

theorem mem_tags_iff (hu : u.Addressable) (d : Nat) : d ∈ u.tags ↔ u.isTag d = true := by
  rw [hu.tags_eq, List.mem_filter, List.mem_range, and_iff_right_iff_imp]
  exact lt_of_isTag

end Addressable

end SourceUnit

/-! ## Changes -/

section Tables

variable {α : Type} {fits : Nat → α → Prop} {xs : Array α}

/-- If all entries of a table fit and one more fits at its end, all entries fit after it is
added. -/
theorem forall_getElem?_push {x : α} (h : ∀ i a, xs[i]? = some a → fits i a) (hx : fits xs.size x) :
    ∀ i a, (xs.push x)[i]? = some a → fits i a := by
  intro i a ha
  rw [Array.getElem?_push] at ha
  by_cases hi : i = xs.size
  · rw [if_pos hi] at ha
    obtain rfl := Option.some.inj ha
    rw [hi]
    exact hx
  · rw [if_neg hi] at ha
    exact h i a ha

/-- If all entries of a table fit and a change lets an entry fit, all entries fit after one is
changed. -/
theorem forall_getElem?_modify {f : α → α} (j : Nat) (h : ∀ i a, xs[i]? = some a → fits i a)
    (hf : ∀ i a, fits i a → fits i (f a)) : ∀ i a, (xs.modify j f)[i]? = some a → fits i a := by
  intro i a ha
  rw [Array.getElem?_modify] at ha
  by_cases hij : j = i
  · rw [if_pos hij, Option.map_eq_some_iff] at ha
    obtain ⟨b, hb, rfl⟩ := ha
    exact hf i b (h i b hb)
  · rw [if_neg hij] at ha
    exact h i a ha

end Tables

/-- The units that one valid change leads to. -/
inductive Change (u : SourceUnit) : SourceUnit → Prop
  /-- A further file. -/
  | addFile (file : SourceFile) : Change u (u.addFile file)
  /-- Another name for a file. -/
  | renameFile (i : Nat) (name : String) : Change u (u.renameFile i name)
  /-- A further position that fits at the end. -/
  | addPosition {position : Position} : position.FitsAt u.files.size u.positions.size →
      Change u (u.addPosition position)
  /-- A further declaration in a declaration that is there. -/
  | addDecl {parent : Nat} {entity : Entity} : parent < u.decls.size → entity ≠ .unit →
      entity.Fits u.positions.size → Change u (u.addDecl parent entity)
  /-- A further base class that is there, or an unknown one. -/
  | addBase (decl : Nat) {base : Option Nat} : (∀ b ∈ base, b < u.decls.size) →
      Change u (u.addBase decl base)

theorem nonEmptyName_ne_empty (name : String) : nonEmptyName name ≠ some "" := by
  unfold nonEmptyName
  by_cases h : name = ""
  · simp [h]
  · simp [h]

/-- A valid edit is one of the changes. -/
theorem Edit.Valid.change {u : SourceUnit} {e : Edit} (he : e.Valid u) : Change u (u.apply e) := by
  cases e with
  | addFile name system => exact .addFile _
  | lineDirective file name => exact .renameFile file name
  | addPosition file line column => exact .addPosition he
  | addMacro spelling expansion => exact .addPosition he
  | addInvalid => exact .addPosition trivial
  | addNamespace parent name =>
    refine .addDecl he (by simp) ⟨rfl, by simp [Entity.position], fun _ => ⟨name, rfl⟩, by simp⟩
  | addRecord parent name position =>
    -- An empty name has been turned into none.
    refine .addDecl he.1 (by simp) ⟨rfl, ?_, fun h => absurd h (nonEmptyName_ne_empty name),
      by simp⟩
    rintro p hp
    exact Option.some.inj hp ▸ he.2
  | addEnumeration parent name position =>
    refine .addDecl he.1 (by simp) ⟨rfl, ?_, fun h => absurd h (nonEmptyName_ne_empty name),
      by simp⟩
    rintro p hp
    exact Option.some.inj hp ▸ he.2
  | addFunction parent name =>
    exact .addDecl he (by simp)
      ⟨rfl, by simp [Entity.position], fun h => absurd h (nonEmptyName_ne_empty name), by simp⟩
  | addBlock parent =>
    exact .addDecl he (by simp) ⟨rfl, by simp [Entity.position], by simp [Entity.name],
      fun _ => rfl⟩
  | addBase decl base => exact .addBase decl he.2

/-- A change keeps a unit well formed. -/
theorem SourceUnit.WellFormed.change {u v : SourceUnit} (hu : u.WellFormed) (h : Change u v) :
    v.WellFormed := by
  cases h with
  | addFile file =>
    refine ⟨hu.rooted, ?_, hu.decl⟩
    intro i p hp
    exact (hu.position i p hp).mono (by simp [addFile])
  | renameFile i name =>
    refine ⟨hu.rooted, ?_, hu.decl⟩
    intro j p hp
    exact (hu.position j p hp).mono (by simp [renameFile])
  | @addPosition position hfits =>
    refine ⟨hu.rooted, forall_getElem?_push hu.position hfits, ?_⟩
    intro i d hd
    exact (hu.decl i d hd).mono (Nat.le_refl _) (by simp [addPosition])
  | @addDecl parent entity hparent hunit hfits =>
    -- Two things happen: there is more room for base classes, and one more declaration to look at.
    have hroom : u.decls.size ≤ (u.addDecl parent entity).decls.size := by simp [addDecl]
    have hnew : Decl.FitsAt (u.addDecl parent entity).decls.size u.positions.size u.decls.size
        ⟨entity, some parent, []⟩ := by
      have hpos : u.decls.size ≠ 0 := Nat.ne_of_gt hu.rooted
      exact ⟨hfits, iff_of_false hunit hpos, fun h => absurd h hpos,
        fun _ => ⟨parent, rfl, hparent⟩, by simp⟩
    refine ⟨Nat.lt_of_lt_of_le hu.rooted hroom, hu.position, forall_getElem?_push ?_ hnew⟩
    intro i d hd
    exact (hu.decl i d hd).mono hroom (Nat.le_refl _)
  | @addBase decl base hbase =>
    have hsize : (u.addBase decl base).decls.size = u.decls.size := by simp [addBase]
    refine ⟨hsize ▸ hu.rooted, hu.position, forall_getElem?_modify decl ?_ ?_⟩
    · rw [hsize]
      exact hu.decl
    · intro i d hd
      refine ⟨hd.entity, hd.unit_iff, hd.parent_root, hd.parent_lt, ?_⟩
      intro b hb
      rcases List.mem_append.1 hb with hb | hb
      · exact hd.base_lt b hb
      · rw [List.mem_singleton] at hb
        exact hsize ▸ hbase b hb.symm

theorem SourceUnit.wellFormed_empty : SourceUnit.empty.WellFormed where
  rooted := Nat.one_pos
  position := by simp [empty]
  decl := by
    intro i d hd
    cases i with
    | zero =>
      have hunit : Decl.unit = d := Option.some.inj hd
      subst hunit
      exact ⟨⟨rfl, by simp [Decl.unit, Entity.position], by simp [Decl.unit, Entity.name],
        fun _ => rfl⟩, by simp [Decl.unit], fun _ => rfl,
          fun h => absurd rfl h, by simp [Decl.unit]⟩
    | succ i => simp [empty] at hd

/-! ## Handles given out -/

namespace Handle

/-- The handle leads to an entry of the unit. -/
def LeadsInto (u : SourceUnit) : Handle → Prop
  | .file i => i < u.files.size
  | .position i => i < u.positions.size
  | .decl i => i < u.decls.size

/-- The handle is the word for an entry of the unit. -/
def StandsFor (u : SourceUnit) : Handle → Prop
  | .file w => ∃ i < u.files.size, word i = w
  | .position w => ∃ i < u.positions.size, word i = w
  | .decl w => ∃ i < u.decls.size, word i = w

end Handle

namespace Edit

/-- The handles that an edit takes. -/
def taken : Edit → List Handle
  | .addFile _ _ => []
  | .lineDirective file _ => [.file file]
  | .addPosition file _ _ => [.file file]
  | .addMacro spelling expansion => [.position spelling, .position expansion]
  | .addInvalid => []
  | .addNamespace parent _ => [.decl parent]
  | .addRecord parent _ position => [.decl parent, .position position]
  | .addEnumeration parent _ position => [.decl parent, .position position]
  | .addFunction parent _ => [.decl parent]
  | .addBlock parent => [.decl parent]
  | .addBase decl base => .decl decl :: base.toList.map .decl

/-- The handle that an edit of the unit gives out: to the entry that it adds. -/
def given (u : SourceUnit) : Edit → Option Handle
  | .addFile _ _ => some (.file u.nextFile)
  | .addPosition _ _ _ | .addMacro _ _ | .addInvalid => some (.position u.nextPosition)
  | .addNamespace _ _ | .addRecord _ _ _ | .addEnumeration _ _ _ | .addFunction _ _ | .addBlock _ =>
      some (.decl u.nextDecl)
  | .lineDirective _ _ | .addBase _ _ => none

/-- An edit is valid exactly if the handles that it takes lead into the unit. -/
theorem valid_iff_taken (u : SourceUnit) (e : Edit) : e.Valid u ↔ ∀ h ∈ e.taken, h.LeadsInto u := by
  cases e with
  | addBase decl base => cases base <;> simp [Valid, taken, Handle.LeadsInto]
  | _ => simp [Valid, taken, Handle.LeadsInto]

end Edit

namespace Handle

variable {u : SourceUnit} {h : Handle}

/-- A handle that leads into a unit does so after an edit. -/
theorem LeadsInto.apply (hh : h.LeadsInto u) (e : Edit) : h.LeadsInto (u.apply e) := by
  cases h with
  | file i => exact Nat.lt_of_lt_of_le hh (u.files_size_le_apply e)
  | position i => exact Nat.lt_of_lt_of_le hh (u.positions_size_le_apply e)
  | decl i => exact Nat.lt_of_lt_of_le hh (u.decls_size_le_apply e)

/-- The handle that an edit gives out leads into the unit after it. -/
theorem leadsInto_of_given {e : Edit} (hg : e.given u = some h) : h.LeadsInto (u.apply e) := by
  -- The new entry is the last one of its table, and the word for it is never above its index.
  have hword : ∀ n : Nat, word n < n + 1 := fun n => Nat.lt_succ_of_le (word_le n)
  cases e with
  | lineDirective file name => cases hg
  | addBase decl base => cases hg
  | addFile name system =>
    obtain rfl := Option.some.inj hg
    simpa [LeadsInto, SourceUnit.nextFile, SourceUnit.apply, SourceUnit.addFile]
      using hword u.files.size
  | addPosition | addMacro | addInvalid =>
    obtain rfl := Option.some.inj hg
    simpa [LeadsInto, SourceUnit.nextPosition, SourceUnit.apply, SourceUnit.addPosition]
      using hword u.positions.size
  | addNamespace | addRecord | addEnumeration | addFunction | addBlock =>
    obtain rfl := Option.some.inj hg
    simpa [LeadsInto, SourceUnit.nextDecl, SourceUnit.apply, SourceUnit.addDecl]
      using hword u.decls.size

/-- A word for an entry of a table with a further entry is one for the table, or the word for the
new entry. -/
theorem exists_word_push {α : Type} {xs : Array α} {x : α} {w : Nat}
    (hw : ∃ i < (xs.push x).size, word i = w) : (∃ i < xs.size, word i = w) ∨ w = word xs.size := by
  obtain ⟨i, hi, rfl⟩ := hw
  rw [Array.size_push] at hi
  rcases Nat.lt_succ_iff_lt_or_eq.1 hi with hlt | rfl
  · exact Or.inl ⟨i, hlt, rfl⟩
  · exact Or.inr rfl

/-- An edit brings no words but the one that it gives out. -/
theorem StandsFor.of_apply {e : Edit} (hh : h.StandsFor (u.apply e)) :
    h.StandsFor u ∨ e.given u = some h := by
  cases e with
  | lineDirective file name =>
    cases h <;> simp_all [StandsFor, SourceUnit.apply, SourceUnit.renameFile]
  | addBase decl base =>
    cases h <;> simp_all [StandsFor, SourceUnit.apply, SourceUnit.addBase]
  -- Only the table that the edit adds to has a further index.
  | addFile name system =>
    cases h with
    | file w =>
      exact (exists_word_push hh).imp_right fun hw => congrArg (some ∘ Handle.file) hw.symm
    | position w => exact Or.inl hh
    | decl w => exact Or.inl hh
  | addPosition | addMacro | addInvalid =>
    cases h with
    | file w => exact Or.inl hh
    | position w =>
      exact (exists_word_push hh).imp_right fun hw => congrArg (some ∘ Handle.position) hw.symm
    | decl w => exact Or.inl hh
  | addNamespace | addRecord | addEnumeration | addFunction | addBlock =>
    cases h with
    | file w => exact Or.inl hh
    | position w => exact Or.inl hh
    | decl w =>
      exact (exists_word_push hh).imp_right fun hw => congrArg (some ∘ Handle.decl) hw.symm

end Handle

/-- The unit is grown by edits that take only handles given out before. The list holds the handles
given out so far, that to the unit itself included. -/
inductive Grown : SourceUnit → List Handle → Prop
  /-- At first there is the unit itself. -/
  | empty : Grown .empty [.decl 0]
  /-- An edit gives out a handle to what it adds. -/
  | edit {u : SourceUnit} {hs : List Handle} (e : Edit) : Grown u hs → (∀ h ∈ e.taken, h ∈ hs) →
      Grown (u.apply e) ((e.given u).toList ++ hs)

namespace Grown

variable {u : SourceUnit} {hs : List Handle}

/-- The handles given out lead into the unit. -/
theorem leadsInto (hu : Grown u hs) : ∀ h ∈ hs, h.LeadsInto u := by
  induction hu with
  | empty =>
    intro h hh
    obtain rfl := List.mem_singleton.1 hh
    exact Nat.one_pos
  | @edit u hs e _ _ ih =>
    intro h hh
    rcases List.mem_append.1 hh with hnew | hold
    · exact Handle.leadsInto_of_given (Option.mem_toList.1 hnew)
    · exact (ih h hold).apply e

/-- A handle has been given out for every entry of the unit. -/
theorem mem_of_standsFor (hu : Grown u hs) : ∀ h : Handle, h.StandsFor u → h ∈ hs := by
  induction hu with
  | empty =>
    intro h hh
    cases h with
    | file w => obtain ⟨i, hi, -⟩ := hh; cases hi
    | position w => obtain ⟨i, hi, -⟩ := hh; cases hi
    | decl w =>
      obtain ⟨i, hi, rfl⟩ := hh
      obtain rfl : i = 0 := Nat.lt_one_iff.1 hi
      exact List.mem_singleton.2 rfl
  | @edit u hs e _ _ ih =>
    intro h hh
    rcases hh.of_apply with hold | hnew
    · exact List.mem_append_right _ (ih h hold)
    · exact List.mem_append_left _ (Option.mem_toList.2 hnew)

/-- Every unit grown by edits is well formed. -/
theorem wellFormed (hu : Grown u hs) : u.WellFormed := by
  induction hu with
  | empty => exact SourceUnit.wellFormed_empty
  | @edit u hs e hu htaken ih =>
    have hvalid : e.Valid u := (e.valid_iff_taken u).2 fun h hh => hu.leadsInto h (htaken h hh)
    exact ih.change hvalid.change

end Grown

namespace SourceUnit

/-- The unit is grown by edits that take handles given out before. -/
def Reachable (u : SourceUnit) : Prop :=
  ∃ hs, Grown u hs

namespace Reachable

variable {u : SourceUnit}

theorem wellFormed (hu : u.Reachable) : u.WellFormed := by
  obtain ⟨hs, hgrown⟩ := hu
  exact hgrown.wellFormed

theorem empty : Reachable .empty :=
  ⟨_, .empty⟩

/-- An edit that takes words for entries of the unit can follow. -/
theorem apply (hu : u.Reachable) {e : Edit} (he : ∀ h ∈ e.taken, h.StandsFor u) :
    (u.apply e).Reachable := by
  obtain ⟨hs, hgrown⟩ := hu
  exact ⟨_, hgrown.edit e fun h hh => hgrown.mem_of_standsFor h (he h hh)⟩

end Reachable

end SourceUnit

/-- A class that is declared in a macro and derives from itself. -/
def SourceUnit.circle : SourceUnit :=
  empty.applyAll [.addFile "a.h" false, .addPosition 0 3 1, .addMacro 0 0, .addRecord 0 "A" 1,
    .addBase 1 (some 1)]

theorem SourceUnit.reachable_circle : circle.Reachable :=
  ⟨_, Grown.empty
    |>.edit (.addFile "a.h" false) (by decide)
    |>.edit (.addPosition 0 3 1) (by decide)
    |>.edit (.addMacro 0 0) (by decide)
    |>.edit (.addRecord 0 "A" 1) (by decide)
    |>.edit (.addBase 1 (some 1)) (by decide)⟩

end StyleZones

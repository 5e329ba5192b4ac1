import Mathlib.Data.List.Basic
import Mathlib.Data.Option.Basic
import StyleZones.Proofs.Loops
import StyleZones.Proofs.Snapshot.Load

/-!
# The unit that a snapshot writes down

Loading makes a unit by a long run of edits: files, then positions, then declarations without base
classes, then base classes, one at a time, each to a declaration that is found by its index. The
result is nevertheless the snapshot read entry by entry.

* `PositionEntry.image` and `DeclEntry.image` are the entries of the unit that entries of the
  snapshot stand for, and `Snapshot.image` is the unit made of them.
* `Snapshot.applyAll_plainEdits`: the run of edits makes this unit. The invariant of the last pass
  is that the declarations up to the current one are complete and the ones after it have no base
  classes yet.
* `Snapshot.load_faithful`: a unit that loading gives depicts the snapshot, and no other snapshot
  gives it.
-/

set_option autoImplicit false

namespace StyleZones

/-! ## Units as lists -/

namespace SourceUnit

/-- The unit with the given files, positions and declarations. -/
def ofLists (files : List SourceFile) (positions : List Position) (decls : List Decl) :
    SourceUnit :=
  ⟨files.toArray, positions.toArray, decls.toArray⟩

section Lists

variable (files : List SourceFile) (positions : List Position) (decls : List Decl)

@[simp] theorem ofLists_addFile (file : SourceFile) :
    (ofLists files positions decls).addFile file = ofLists (files ++ [file]) positions decls := by
  simp [ofLists, addFile]

@[simp] theorem ofLists_addPosition (position : Position) :
    (ofLists files positions decls).addPosition position =
      ofLists files (positions ++ [position]) decls := by
  simp [ofLists, addPosition]

@[simp] theorem ofLists_addDecl (parent : Nat) (entity : Entity) :
    (ofLists files positions decls).addDecl parent entity =
      ofLists files positions (decls ++ [⟨entity, some parent, []⟩]) := by
  simp [ofLists, addDecl]

end Lists

/-- A base class is added to the declaration with the given index. -/
theorem ofLists_addBase (files : List SourceFile) (positions : List Position) (pre post : List Decl)
    (decl : Decl) (base : Option Nat) :
    (ofLists files positions (pre ++ decl :: post)).addBase pre.length base =
      ofLists files positions (pre ++ { decl with bases := decl.bases ++ [base] } :: post) := by
  simp [ofLists, addBase, modify_append_cons]

end SourceUnit

/-! ## Images of entries -/

/-- The position that an entry writes down. -/
def PositionEntry.image : PositionEntry → Position
  | .inFile file line column => .inFile file.toNat line column
  | .inMacro spelling expansion => .inMacro spelling.toNat expansion.toNat
  | .invalid => .invalid

namespace DeclEntry

/-- What an entry declares. The empty name of a record, an enumeration or a function is no name; a
namespace has the name that is written, or none. -/
def entity : DeclEntry → Entity
  | .nameSpace name _ => .nameSpace name
  | .record name _ position _ => .record (nonEmptyName name) position.toNat
  | .enumeration name _ position => .enumeration (nonEmptyName name) position.toNat
  | .function name _ => .function (nonEmptyName name)
  | .block _ => .block

/-- The declaration that an entry writes down. -/
def image (e : DeclEntry) : Decl :=
  ⟨e.entity, some (parentIndex e.parent), e.bases.map baseIndex⟩

/-- The declaration before its base classes are added. -/
def bare (e : DeclEntry) : Decl :=
  ⟨e.entity, some (parentIndex e.parent), []⟩

end DeclEntry

/-- The unit that a snapshot writes down. -/
def Snapshot.image (s : Snapshot) : SourceUnit :=
  .ofLists s.files (s.positions.map PositionEntry.image) (.unit :: s.decls.map DeclEntry.image)

/-! ## Snapshots that words can address -/

namespace Snapshot

/-- No table of the unit has more than 2^32 entries, which is how many words there are. -/
structure Addressable (s : Snapshot) : Prop where
  /-- There are as many words as files. -/
  files : s.files.length ≤ UInt32.size
  /-- There are as many words as positions. -/
  positions : s.positions.length ≤ UInt32.size
  /-- There are as many words as declarations, the unit itself included. -/
  decls : s.decls.length + 1 ≤ UInt32.size

variable {s : Snapshot}

namespace Addressable

/-- The handle to a file of the snapshot is its place. -/
theorem word_file (ha : s.Addressable) {i : Nat} (hi : i < s.files.length) : Handle.word i = i :=
  Handle.word_eq_self (Nat.lt_of_lt_of_le hi ha.files)

/-- The handle to a position of the snapshot is its place. -/
theorem word_position (ha : s.Addressable) {i : Nat} (hi : i < s.positions.length) :
    Handle.word i = i :=
  Handle.word_eq_self (Nat.lt_of_lt_of_le hi ha.positions)

/-- The handle to a declaration of the snapshot is the place after its own. -/
theorem word_decl (ha : s.Addressable) {i : Nat} (hi : i < s.decls.length) :
    Handle.word (i + 1) = i + 1 :=
  Handle.word_eq_self (Nat.lt_of_lt_of_le (Nat.succ_lt_succ hi) ha.decls)

theorem fileEdits_eq (ha : s.Addressable) {i : Nat} {file : SourceFile}
    (hfile : s.files[i]? = some file) :
    Loading.fileEdits Handle.word i file = Loading.fileEdits id i file := by
  obtain ⟨hi, -⟩ := List.getElem?_eq_some_iff.1 hfile
  rw [Loading.fileEdits, ha.word_file hi]
  rfl

/-- The handles in the edit for a position are the indices themselves, if all can be told apart. -/
theorem positionEdit_eq (ha : s.Addressable) (hs : s.Faultless) {i : Nat} {e : PositionEntry}
    (he : s.positions[i]? = some e) : e.edit Handle.word = e.edit id := by
  cases e with
  | inFile file line column => rw [PositionEntry.edit, ha.word_file (hs.file_lt he)]; rfl
  | inMacro spelling expansion =>
    obtain ⟨hi, -⟩ := List.getElem?_eq_some_iff.1 he
    obtain ⟨hspelling, hexpansion⟩ := hs.link_lt he
    rw [PositionEntry.edit, ha.word_position (Nat.lt_trans hspelling hi),
      ha.word_position (Nat.lt_trans hexpansion hi)]
    rfl
  | invalid => rfl

theorem word_parentIndex (ha : s.Addressable) (hs : s.Faultless) {i : Nat} {e : DeclEntry}
    (he : s.decls[i]? = some e) : Handle.word (parentIndex e.parent) = parentIndex e.parent := by
  cases hp : e.parent with
  | none => rfl
  | some q => exact ha.word_decl (hs.parent_lt he hp)

theorem declEdit_eq (ha : s.Addressable) (hs : s.Faultless) {i : Nat} {e : DeclEntry}
    (he : s.decls[i]? = some e) : e.edit Handle.word = e.edit id := by
  have hparent := ha.word_parentIndex hs he
  have hposition : ∀ p, e.position = some p → Handle.word p.toNat = p.toNat := fun p hp =>
    ha.word_position (hs.position_lt he hp)
  cases e with
  | nameSpace name parent => exact congrArg (Edit.addNamespace · name) hparent
  | record name parent position bases =>
    exact congrArg₂ (Edit.addRecord · name ·) hparent (hposition position rfl)
  | enumeration name parent position =>
    exact congrArg₂ (Edit.addEnumeration · name ·) hparent (hposition position rfl)
  | function name parent => exact congrArg (Edit.addFunction · name) hparent
  | block parent => exact congrArg Edit.addBlock hparent

theorem baseEdits_eq (ha : s.Addressable) (hs : s.Faultless) {i : Nat} {e : DeclEntry}
    (he : s.decls[i]? = some e) : e.baseEdits Handle.word i = e.baseEdits id i := by
  obtain ⟨hi, -⟩ := List.getElem?_eq_some_iff.1 he
  refine List.map_congr_left fun base hbase => ?_
  cases base with
  | none => rw [ha.word_decl hi]; rfl
  | some b =>
    rw [ha.word_decl hi, baseIndex, Option.map_some, Option.map_some,
      ha.word_decl (hs.base_lt he hbase)]
    rfl

/-- The handles that loading keeps are the indices. -/
theorem edits_eq (ha : s.Addressable) (hs : s.Faultless) : s.edits Handle.word = s.edits id := by
  have hpositions : s.positions.map (PositionEntry.edit Handle.word) =
      s.positions.map (PositionEntry.edit id) := by
    refine List.map_congr_left fun e he => ?_
    obtain ⟨i, hi⟩ := List.mem_iff_getElem?.1 he
    exact ha.positionEdit_eq hs hi
  have hdecls : s.decls.map (DeclEntry.edit Handle.word) = s.decls.map (DeclEntry.edit id) := by
    refine List.map_congr_left fun e he => ?_
    obtain ⟨i, hi⟩ := List.mem_iff_getElem?.1 he
    exact ha.declEdit_eq hs hi
  rw [edits, edits, hpositions, hdecls, scan_congr fun i file => ha.fileEdits_eq,
    scan_congr fun i e => ha.baseEdits_eq hs]

end Addressable

end Snapshot

/-! ## The passes of loading -/

namespace SourceUnit

theorem apply_positionEdit (u : SourceUnit) (e : PositionEntry) :
    u.apply (e.edit id) = u.addPosition e.image := by
  cases e <;> rfl

theorem apply_declEdit (u : SourceUnit) (e : DeclEntry) :
    u.apply (e.edit id) = u.addDecl (parentIndex e.parent) e.entity := by
  cases e <;> rfl

/-- A file is added and named at its own place. -/
theorem ofLists_fileEdits (files : List SourceFile) (positions : List Position) (decls : List Decl)
    (file : SourceFile) :
    (ofLists files positions decls).applyAll (Loading.fileEdits id files.length file) =
      ofLists (files ++ [file]) positions decls := by
  obtain ⟨name, system, presumed⟩ := file
  cases presumed with
  | none => exact ofLists_addFile files positions decls _
  | some presumed =>
    simp [Loading.fileEdits, applyAll, apply, renameFile, ofLists, addFile, modify_append_cons]

/-- The files are added in order. -/
theorem applyAll_fileEdits (files more : List SourceFile) (positions : List Position)
    (decls : List Decl) :
    (ofLists files positions decls).applyAll
        (Snapshot.scan (Loading.fileEdits id) files.length more) =
      ofLists (files ++ more) positions decls := by
  induction more generalizing files with
  | nil => rw [Snapshot.scan_nil, List.append_nil]; rfl
  | cons file more ih =>
    have hrest := ih (files ++ [file])
    rw [List.length_append, List.length_singleton, List.append_assoc,
      List.singleton_append] at hrest
    rw [Snapshot.scan_cons, applyAll_append, ofLists_fileEdits, hrest]

/-- The positions are added in order. -/
theorem applyAll_positionEdits (files : List SourceFile) (positions : List Position)
    (decls : List Decl) (es : List PositionEntry) :
    (ofLists files positions decls).applyAll (es.map (PositionEntry.edit id)) =
      ofLists files (positions ++ es.map PositionEntry.image) decls := by
  rw [applyAll, List.foldl_map]
  refine foldl_collect _ PositionEntry.image (fun ps => ofLists files ps decls) ?_ positions es
  intro ps e
  rw [apply_positionEdit, ofLists_addPosition]

/-- The declarations are added in order, none of them with base classes yet. -/
theorem applyAll_declEdits (files : List SourceFile) (positions : List Position)
    (decls : List Decl) (es : List DeclEntry) :
    (ofLists files positions decls).applyAll (es.map (DeclEntry.edit id)) =
      ofLists files positions (decls ++ es.map DeclEntry.bare) := by
  rw [applyAll, List.foldl_map]
  refine foldl_collect _ DeclEntry.bare (fun ds => ofLists files positions ds) ?_ decls es
  intro ds e
  rw [apply_declEdit, ofLists_addDecl]
  rfl

/-- The base classes of a declaration are added to it in order, and to no other. -/
theorem applyAll_entryBaseEdits (files : List SourceFile) (positions : List Position)
    (pre post : List Decl) (e : DeclEntry) (i : Nat) (hpre : pre.length = i + 1) :
    (ofLists files positions (pre ++ e.bare :: post)).applyAll (e.baseEdits id i) =
      ofLists files positions (pre ++ e.image :: post) := by
  rw [DeclEntry.baseEdits, ← hpre, applyAll, List.foldl_map]
  -- What grows along the loop are the base classes of the one declaration at index `pre.length`.
  refine foldl_collect _ baseIndex
    (fun bs => ofLists files positions (pre ++ ⟨e.entity, some (parentIndex e.parent), bs⟩ :: post))
    ?_ [] e.bases
  intro bs base
  rw [Option.map_id, id]
  exact ofLists_addBase files positions pre post _ (baseIndex base)

/-- The last pass. The declarations in `pre` are complete, those of `es` have no base classes
yet. -/
theorem applyAll_baseEdits (files : List SourceFile) (positions : List Position) (pre : List Decl)
    (es : List DeclEntry) (i : Nat) (hpre : pre.length = i + 1) :
    (ofLists files positions (pre ++ es.map DeclEntry.bare)).applyAll
        (Snapshot.scan (DeclEntry.baseEdits id) i es) =
      ofLists files positions (pre ++ es.map DeclEntry.image) := by
  induction es generalizing pre i with
  | nil => rfl
  | cons e es ih =>
    -- The first of `es` is completed, and joins the declarations in `pre`.
    have hnext : (pre ++ [e.image]).length = (i + 1) + 1 := by simp [hpre]
    have hrest := ih (pre ++ [e.image]) (i + 1) hnext
    rw [List.append_assoc, List.append_assoc, List.singleton_append, List.singleton_append] at hrest
    rw [Snapshot.scan_cons, applyAll_append, List.map_cons, List.map_cons,
      applyAll_entryBaseEdits _ _ _ _ _ _ hpre, hrest]

end SourceUnit

namespace Snapshot

/-- On indices, the run of edits makes the unit that the snapshot writes down. -/
theorem applyAll_edits (s : Snapshot) : SourceUnit.empty.applyAll (s.edits id) = s.image := by
  have hempty : SourceUnit.empty = .ofLists [] [] [.unit] := rfl
  have hfiles := SourceUnit.applyAll_fileEdits [] s.files [] [.unit]
  rw [List.length_nil, List.nil_append] at hfiles
  rw [edits, SourceUnit.applyAll_append, SourceUnit.applyAll_append, SourceUnit.applyAll_append,
    hempty, hfiles, SourceUnit.applyAll_positionEdits, SourceUnit.applyAll_declEdits,
    -- Only the unit itself is complete when the last pass begins.
    SourceUnit.applyAll_baseEdits _ _ [.unit] s.decls 0 rfl]
  rfl

/-- Loading gives the unit that the snapshot writes down, if no reference is at fault. -/
theorem load_eq_ok_iff_image {s : Snapshot} (ha : s.Addressable) (u : SourceUnit) :
    s.load = .ok u ↔ s.Faultless ∧ s.image = u := by
  rw [load_eq_ok_iff]
  constructor
  · rintro ⟨hs, rfl⟩
    exact ⟨hs, by rw [ha.edits_eq hs, applyAll_edits]⟩
  · rintro ⟨hs, rfl⟩
    exact ⟨hs, by rw [ha.edits_eq hs, applyAll_edits]⟩

/-- A snapshot whose unit is that of an addressable one is addressable itself. -/
theorem Addressable.of_load_eq {s t : Snapshot} {u : SourceUnit} (ha : s.Addressable)
    (hs : s.load = .ok u) (ht : t.load = .ok u) : t.Addressable := by
  have hsized := s.sized_of_load hs
  have htsized := t.sized_of_load ht
  constructor
  · rw [← htsized.files, hsized.files]
    exact ha.files
  · rw [← htsized.positions, hsized.positions]
    exact ha.positions
  · rw [← htsized.decls, hsized.decls]
    exact ha.decls

end Snapshot

/-! ## Nothing is lost -/

theorem nonEmptyName_injective : Function.Injective nonEmptyName := by
  intro a b h
  -- Only the empty name is no name.
  unfold nonEmptyName at h
  by_cases ha : a = ""
  · by_cases hb : b = ""
    · rw [ha, hb]
    · simp [ha, hb] at h
  · by_cases hb : b = ""
    · simp [ha, hb] at h
    · simpa [ha, hb] using h

theorem parentIndex_injective : Function.Injective parentIndex := by
  intro a b h
  cases a with
  | none =>
    cases b with
    | none => rfl
    | some j => simp [parentIndex] at h
  | some i =>
    cases b with
    | none => simp [parentIndex] at h
    | some j =>
      have hij : i.toNat = j.toNat := Nat.succ.inj h
      rw [UInt64.toNat_inj.1 hij]

theorem baseIndex_injective : Function.Injective baseIndex := by
  refine Option.map_injective fun i j h => ?_
  exact UInt64.toNat_inj.1 (Nat.succ.inj h)

/-- No two entries stand for the same position. -/
theorem PositionEntry.image_injective : Function.Injective PositionEntry.image := by
  intro a b h
  cases a <;> cases b <;> simp_all [PositionEntry.image, UInt64.toNat_inj]

/-- An entry is determined by what it declares, its parent and its base classes. -/
theorem DeclEntry.eq_of_entity_eq {a b : DeclEntry} (hentity : a.entity = b.entity)
    (hparent : a.parent = b.parent) (hbases : a.bases = b.bases) : a = b := by
  cases a <;> cases b <;>
    simp_all [DeclEntry.entity, DeclEntry.parent, DeclEntry.bases, UInt64.toNat_inj,
      nonEmptyName_injective.eq_iff]

theorem DeclEntry.image_injective : Function.Injective DeclEntry.image := by
  intro a b h
  obtain ⟨hentity, hparent, hbases⟩ := Decl.mk.inj h
  exact DeclEntry.eq_of_entity_eq hentity (parentIndex_injective (Option.some.inj hparent))
    (baseIndex_injective.list_map hbases)

namespace Snapshot

/-- No two snapshots stand for the same unit. -/
theorem image_injective : Function.Injective image := by
  intro s t h
  obtain ⟨hfiles, hpositions, hdecls⟩ := SourceUnit.mk.inj h
  have hf : s.files = t.files := List.toArray_inj hfiles
  have hp : s.positions = t.positions :=
    PositionEntry.image_injective.list_map (List.toArray_inj hpositions)
  have hd : s.decls = t.decls :=
    DeclEntry.image_injective.list_map (List.cons.inj (List.toArray_inj hdecls)).2
  cases s
  cases t
  simp_all

/-! ## Faithfulness -/

/-- The unit depicts the snapshot: the same files and positions in order, and one declaration more,
the unit itself in front; declaration `i + 1` declares what entry `i` says, in the scope and with
the base classes, in order, that it gives. -/
structure Depicts (s : Snapshot) (u : SourceUnit) : Prop where
  /-- The files are the same. -/
  files : u.files.toList = s.files
  /-- The positions are those that the entries write down. -/
  positions : u.positions.toList = s.positions.map PositionEntry.image
  /-- There is one declaration more. -/
  size : u.decls.size = s.decls.length + 1
  /-- Declaration 0 is the unit itself. -/
  root : u.decls[0]? = some .unit
  /-- The other declarations are those that the entries write down. -/
  decl : ∀ i e, s.decls[i]? = some e → ∃ d, u.decls[i + 1]? = some d ∧
    d.entity = e.entity ∧ d.parent = some (parentIndex e.parent) ∧ d.bases = e.bases.map baseIndex

/-- The unit that is made of a snapshot has its entries. -/
theorem depicts_image (s : Snapshot) : s.Depicts s.image where
  files := rfl
  positions := rfl
  size := by simp [image, SourceUnit.ofLists]
  root := rfl
  decl := by
    intro i e he
    refine ⟨e.image, ?_, rfl, rfl, rfl⟩
    simp [image, SourceUnit.ofLists, he]

/-- Below 2^32 entries in each table, a unit that loading gives depicts the snapshot, and loading
gives it for no other snapshot, however long. -/
theorem load_faithful {s : Snapshot} {u : SourceUnit} (ha : s.Addressable) (h : s.load = .ok u) :
    s.Depicts u ∧ ∀ t : Snapshot, t.load = .ok u → t = s := by
  obtain ⟨-, rfl⟩ := (load_eq_ok_iff_image ha u).1 h
  refine ⟨s.depicts_image, ?_⟩
  intro t ht
  exact image_injective ((load_eq_ok_iff_image (ha.of_load_eq h ht) s.image).1 ht).2

/-- A snapshot with a macro used inside another macro, a base class that is declared later, an
unknown one, and all kinds of declarations. -/
def mixed : Snapshot where
  files := [⟨"chrome/a.h", false, none⟩, ⟨"out/gen/b.cc", false, some "chrome/b.y"⟩,
    ⟨"/usr/include/c.h", true, none⟩]
  positions := [.inFile 1 3 1, .inFile 2 7 2, .inMacro 1 0, .inMacro 0 2, .invalid]
  decls := [.nameSpace (some "") none, .record "" (some 0) 3 [some 2, none],
    .record "Base" none 4 [some 2], .function "f" (some 2), .block (some 3),
    .enumeration "E" (some 4) 2]

theorem addressable_mixed : mixed.Addressable := by
  constructor <;> decide

theorem load_faithful_mixed :
    mixed.Addressable ∧ mixed.load = .ok mixed.image ∧ mixed.Depicts mixed.image ∧
      ∀ t : Snapshot, t.load = .ok mixed.image → t = mixed := by
  have h : mixed.load = .ok mixed.image := rfl
  exact ⟨addressable_mixed, h, load_faithful addressable_mixed h⟩

end Snapshot

end StyleZones

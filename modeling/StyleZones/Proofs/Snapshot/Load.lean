import StyleZones.Proofs.Snapshot.Loading
import StyleZones.Proofs.Snapshot.Reference

/-!
# Loading reports the first fault

Loading goes through a snapshot in three passes, makes an edit of each entry and stops at the first
reference that leads nowhere. The faults of a snapshot do not depend on where loading stands, so
that each pass can be taken apart: the faults that it may meet on one side, the edits that it makes
if there are none on the other.

* `settle` puts the two together, and `settle_bind` says that of two steps in a row the first fault
  counts.
* Each pass is settled by its references (`positionEdit_eq_settle`, `declEdit_eq_settle`,
  `baseEdit_eq_settle`, then `editsFrom_eq_settle` and `baseEditsFrom_eq_settle` for whole lists).
* `Snapshot.load_eq_settle`: loading is settled by the references of the snapshot.
* `Snapshot.load_reports_first_fault` is what this means for the one who loads.
-/

set_option autoImplicit false

namespace StyleZones

/-! ## Outcomes -/

/-- The outcome of a step that may meet a fault and otherwise gives `b`. -/
def settle {β : Type} : Option LoadError → β → Except LoadError β
  | some e, _ => .error e
  | none, b => .ok b

/-- Of two steps in a row the first fault counts. -/
theorem settle_bind {α β : Type} (f g : Option LoadError) (a : α) (b : β)
    {next : α → Except LoadError β} (h : next a = settle g b) :
    (settle f a >>= next) = settle (f.or g) b := by
  cases f with
  | some e => rfl
  | none => exact h

theorem settle_map {α β : Type} (f : Option LoadError) (a : α) (k : α → β) :
    (settle f a >>= fun x => pure (k x)) = settle f (k a) := by
  cases f with
  | some e => rfl
  | none => rfl

theorem settle_eq_error_iff {β : Type} {f : Option LoadError} {b : β} {e : LoadError} :
    settle f b = .error e ↔ f = some e := by
  cases f with
  | some e' => simp [settle]
  | none => simp [settle]

/-- A result is settled on if there is no fault. -/
theorem settle_eq_ok_iff {β : Type} {f : Option LoadError} {b b' : β} :
    settle f b = .ok b' ↔ f = none ∧ b = b' := by
  cases f with
  | some e' => simp [settle]
  | none => simp [settle]

/-! ## The edits of entries without faults

The edits of a snapshot are written down for any handles: those that loading keeps are the words,
and below 2^32 entries they are the indices. -/

/-- The edit that adds a position. -/
def PositionEntry.edit (handle : Nat → Nat) : PositionEntry → Edit
  | .inFile file line column => .addPosition (handle file.toNat) line column
  | .inMacro spelling expansion => .addMacro (handle spelling.toNat) (handle expansion.toNat)
  | .invalid => .addInvalid

/-- The declaration of the unit that a parent stands for: entry `j` is declaration `j + 1`, and
without a parent it is the unit itself. -/
def parentIndex : Option UInt64 → Nat
  | none => 0
  | some j => j.toNat + 1

/-- The declaration of the unit that a base class stands for. -/
def baseIndex (base : Option UInt64) : Option Nat :=
  base.map fun j => j.toNat + 1

namespace DeclEntry

/-- The edit that adds a declaration, without its base classes. -/
def edit (handle : Nat → Nat) : DeclEntry → Edit
  | .nameSpace name parent => .addNamespace (handle (parentIndex parent)) name
  | .record name parent position _ =>
      .addRecord (handle (parentIndex parent)) name (handle position.toNat)
  | .enumeration name parent position =>
      .addEnumeration (handle (parentIndex parent)) name (handle position.toNat)
  | .function name parent => .addFunction (handle (parentIndex parent)) name
  | .block parent => .addBlock (handle (parentIndex parent))

/-- The edits that add the base classes of a declaration at place `i`. -/
def baseEdits (handle : Nat → Nat) (i : Nat) (e : DeclEntry) : List Edit :=
  e.bases.map fun base => .addBase (handle (i + 1)) ((baseIndex base).map handle)

end DeclEntry

/-- The edits of a snapshot without faults, in the order of loading. -/
def Snapshot.edits (s : Snapshot) (handle : Nat → Nat) : List Edit :=
  scan (Loading.fileEdits handle) 0 s.files ++ (s.positions.map (PositionEntry.edit handle) ++
    (s.decls.map (DeclEntry.edit handle) ++ scan (DeclEntry.baseEdits handle) 0 s.decls))

/-! ## The size of the tables -/

namespace SourceUnit

/-- The tables of the unit have so many entries. -/
structure Sized (files positions decls : Nat) (u : SourceUnit) : Prop where
  /-- The number of files. -/
  files : u.files.size = files
  /-- The number of positions. -/
  positions : u.positions.size = positions
  /-- The number of declarations, the unit itself included. -/
  decls : u.decls.size = decls

variable {f p d : Nat} {u : SourceUnit}

theorem sized_empty : Sized 0 0 1 empty := ⟨rfl, rfl, rfl⟩

theorem Sized.addFile (hu : u.Sized f p d) (handle : Nat → Nat) (i : Nat) (file : SourceFile) :
    (u.applyAll (Loading.fileEdits handle i file)).Sized (f + 1) p d := by
  cases hname : file.presumedName with
  | none =>
    constructor <;> simp [Loading.fileEdits, hname, applyAll, apply, SourceUnit.addFile, hu.files,
      hu.positions, hu.decls]
  | some name =>
    constructor <;> simp [Loading.fileEdits, hname, applyAll, apply, SourceUnit.addFile, renameFile,
      hu.files, hu.positions, hu.decls]

theorem Sized.addPosition (hu : u.Sized f p d) (handle : Nat → Nat) (e : PositionEntry) :
    (u.apply (e.edit handle)).Sized f (p + 1) d := by
  cases e <;> constructor <;>
    simp [PositionEntry.edit, apply, SourceUnit.addPosition, hu.files, hu.positions, hu.decls]

theorem Sized.addDecl (hu : u.Sized f p d) (handle : Nat → Nat) (e : DeclEntry) :
    (u.apply (e.edit handle)).Sized f p (d + 1) := by
  cases e <;> constructor <;>
    simp [DeclEntry.edit, apply, SourceUnit.addDecl, hu.files, hu.positions, hu.decls]

theorem Sized.addBase (hu : u.Sized f p d) (decl : Nat) (base : Option Nat) :
    (u.apply (.addBase decl base)).Sized f p d :=
  ⟨hu.files, hu.positions, by simp [apply, SourceUnit.addBase, hu.decls]⟩

end SourceUnit

namespace Snapshot

variable (s : Snapshot)

/-! ## One entry -/

open Loading

variable {u : SourceUnit}

/-- A look at the handles that are kept fails if there is none at the place. -/
theorem handleAt_words (k n : Nat) (index : UInt64) (fault : LoadError) :
    handleAt (Handle.words k n) index fault =
      settle (if n ≤ index.toNat then some fault else none) (Handle.word (k + index.toNat)) := by
  unfold handleAt
  rw [Handle.getElem?_words]
  by_cases hindex : index.toNat < n
  · simp [hindex, Nat.not_le.2 hindex, settle]
  · simp [hindex, Nat.not_lt.1 hindex, settle]

/-- An entry that is not earlier is told from one that is not there. -/
theorem earlier_words {k n total : Nat} (hn : n ≤ total) (site : RefSite) (index : UInt64) :
    earlier (Handle.words k n) total site index =
      settle (earlierFault? .unknownPosition total n site index)
        (Handle.word (k + index.toNat)) := by
  unfold earlier earlierFault?
  rw [Handle.getElem?_words]
  by_cases hindex : index.toNat < n
  · have htotal : ¬ total ≤ index.toNat := by omega
    simp [hindex, Nat.not_le.2 hindex, htotal, settle]
  · by_cases htotal : index.toNat < total
    · simp [hindex, Nat.not_lt.1 hindex, htotal, Nat.not_le.2 htotal, settle]
    · simp [hindex, htotal, Nat.not_lt.1 htotal, settle]

/-- The first fault of a list is that of its head, or else that of its tail. -/
theorem firstFault_cons (r : Reference) (rs : List Reference) :
    (r :: rs).findSome? s.fault? = (s.fault? r).or (rs.findSome? s.fault?) := by
  rw [List.findSome?_cons]
  cases s.fault? r with
  | some e => rfl
  | none => rfl

/-- The edit of a position is settled by the references of the position. -/
theorem positionEdit_eq_settle {i : Nat} (hi : i < s.positions.length)
    (hu : u.Sized s.files.length i 1) (e : PositionEntry) :
    (of u).positionEdit s.positions.length i e =
      settle ((e.references i).findSome? s.fault?) (e.edit Handle.word) := by
  cases e with
  | inFile file line column =>
    rw [positionEdit, PositionEntry.references, List.findSome?_singleton, of, handleAt_words,
      settle_map, hu.files, Nat.zero_add]
    rfl
  | inMacro spelling expansion =>
    rw [positionEdit, PositionEntry.references, firstFault_cons, firstFault_cons,
      List.findSome?_nil, Option.or_none, of, hu.positions, earlier_words (Nat.le_of_lt hi),
      earlier_words (Nat.le_of_lt hi), Nat.zero_add, Nat.zero_add]
    exact settle_bind _ _ _ _ (settle_map _ _ _)
  | invalid => rfl

/-- The parent of a declaration is settled by the reference to it. That it is listed is asked first,
so that what is said if it is not earlier is never about a position. -/
theorem parentDecl_eq_settle {i : Nat} (hi : i < s.decls.length) {f p : Nat}
    (hu : u.Sized f p (i + 1)) (parent : Option UInt64) :
    (of u).parentDecl s.decls.length i parent =
      settle ((parent.toList.map (Reference.parent i)).findSome? s.fault?)
        (Handle.word (parentIndex parent)) := by
  cases parent with
  | none => rfl
  | some index =>
    rw [parentDecl, Option.toList_some, List.map_singleton, List.findSome?_singleton, of, hu.decls,
      earlier_words (by omega), Nat.add_comm 1]
    by_cases htotal : s.decls.length ≤ index.toNat
    · simp [fault?, earlierFault?, htotal, settle]
    · simp [fault?, earlierFault?, htotal, parentIndex]

/-- The position of a declaration is settled by the reference to it. -/
theorem declPosition_eq_settle {f d : Nat} (hu : u.Sized f s.positions.length d) (i : Nat)
    (position : UInt64) :
    (of u).declPosition i position =
      settle (([position].map (Reference.position i)).findSome? s.fault?)
        (Handle.word position.toNat) := by
  rw [declPosition, of, hu.positions, handleAt_words, List.map_singleton, List.findSome?_singleton,
    Nat.zero_add]
  rfl

/-- The edit of a declaration is settled by its parent and its position, in this order. -/
theorem declEdit_eq_settle {i : Nat} (hi : i < s.decls.length) {f : Nat}
    (hu : u.Sized f s.positions.length (i + 1)) (e : DeclEntry) :
    (of u).declEdit s.decls.length i e =
      settle ((e.ownReferences i).findSome? s.fault?) (e.edit Handle.word) := by
  rw [DeclEntry.ownReferences, List.findSome?_append, declEdit, s.parentDecl_eq_settle hi hu]
  refine settle_bind _ _ _ _ ?_
  cases e with
  | nameSpace | function | block => rfl
  | record | enumeration =>
    show ((of u).declPosition i _ >>= fun p => pure _) = _
    rw [s.declPosition_eq_settle hu, settle_map]
    rfl

/-! ## One turn -/

theorem addPosition_eq_settle {i : Nat} (hi : i < s.positions.length)
    (hu : u.Sized s.files.length i 1) (e : PositionEntry) :
    (of u).addPosition s.positions.length i e =
      settle ((e.references i).findSome? s.fault?) (of (u.applyAll [e.edit Handle.word])) := by
  have hkept : ∀ v : SourceUnit, { of v with
      unit := v.apply (e.edit Handle.word)
      positions := (of v).positions.push v.nextPosition } =
        of (v.applyAll [e.edit Handle.word]) := by
    intro v
    cases e <;> exact keepPosition_of v _
  rw [addPosition, s.positionEdit_eq_settle hi hu, settle_map, ← hkept]
  rfl

theorem addDecl_eq_settle {i : Nat} (hi : i < s.decls.length) {f : Nat}
    (hu : u.Sized f s.positions.length (i + 1)) (e : DeclEntry) :
    (of u).addDecl s.decls.length i e =
      settle ((e.ownReferences i).findSome? s.fault?) (of (u.applyAll [e.edit Handle.word])) := by
  have hrooted : 0 < u.decls.size := by rw [hu.decls]; exact Nat.succ_pos i
  have hkept : { of u with
      unit := u.apply (e.edit Handle.word)
      decls := (of u).decls.push u.nextDecl } = of (u.applyAll [e.edit Handle.word]) := by
    cases e <;> exact keepDecl_of hrooted _ _
  rw [addDecl, s.declEdit_eq_settle hi hu, settle_map, ← hkept]
  rfl

/-- A base class is settled by the reference to it. By now there is a handle to every
declaration. -/
theorem addBase_eq_settle {i : Nat} (hi : i < s.decls.length) {f p : Nat}
    (hu : u.Sized f p (s.decls.length + 1)) (j : Nat) (base : Option UInt64) :
    (of u).addBase i j base =
      settle ((base.toList.map (Reference.base i j)).findSome? s.fault?)
        (of (u.applyAll [.addBase (Handle.word (i + 1)) ((baseIndex base).map Handle.word)])) := by
  have howner : (of u).decls.getD i 0 = Handle.word (i + 1) := by
    rw [Array.getD_eq_getD_getElem?, of, hu.decls, Nat.add_sub_cancel, Handle.getElem?_words,
      if_pos hi, Option.getD_some, Nat.add_comm]
  have hbase : (of u).baseDecl i j base =
      settle ((base.toList.map (Reference.base i j)).findSome? s.fault?)
        ((baseIndex base).map Handle.word) := by
    cases base with
    | none => rfl
    | some index =>
      rw [baseDecl, of, hu.decls, Nat.add_sub_cancel, handleAt_words, settle_map,
        Option.toList_some, List.map_singleton, List.findSome?_singleton, Nat.add_comm]
      rfl
  rw [addBase, hbase, settle_map, howner]
  exact congrArg (settle _) (keepBase_of u _ _)

/-! ## Whole passes

The turns of a pass rely on the number of entries that are there, which depends on the place only:
`inv` in what follows. -/

section Passes

variable {α : Type} {turn : Loading → Nat → α → Except LoadError Loading}
  {refs : Nat → α → List Reference} {edits : Nat → α → List Edit}

/-- What the edits of the entries keep holds after all of them. -/
theorem inv_scan (inv : Nat → SourceUnit → Prop)
    (hinv : ∀ i u a, inv i u → inv (i + 1) (u.applyAll (edits i a))) {i n : Nat} {as : List α}
    (hn : i + as.length = n) (hu : inv i u) : inv n (u.applyAll (scan edits i as)) := by
  induction as generalizing i u with
  | nil => exact hn ▸ hu
  | cons a as ih =>
    rw [List.length_cons] at hn
    rw [scan_cons, SourceUnit.applyAll_append]
    exact ih (by omega) (hinv i u a hu)

/-- If every turn is settled by the references of its entry, the pass is settled by those of all
entries. -/
theorem pass_eq_settle (inv : Nat → SourceUnit → Prop)
    (hinv : ∀ i u a, inv i u → inv (i + 1) (u.applyAll (edits i a))) {n : Nat}
    (hturn : ∀ i < n, ∀ u a, inv i u →
      turn (of u) i a = settle ((refs i a).findSome? s.fault?) (of (u.applyAll (edits i a))))
    {i : Nat} {as : List α} (hn : i + as.length = n) (hu : inv i u) :
    pass turn (of u) i as =
      settle ((scan refs i as).findSome? s.fault?) (of (u.applyAll (scan edits i as))) := by
  induction as generalizing i u with
  | nil => rfl
  | cons a as ih =>
    rw [List.length_cons] at hn
    -- The entry comes first, with its references; the rest of the pass counts if they have no
    -- fault.
    rw [Loading.pass, hturn i (by omega) u a hu, scan_cons, scan_cons, List.findSome?_append,
      SourceUnit.applyAll_append]
    exact settle_bind _ _ _ _ (ih (by omega) (hinv i u a hu))

end Passes

variable {f p d : Nat}

theorem sized_files (hu : u.Sized 0 p d) :
    (u.applyAll (scan (fileEdits Handle.word) 0 s.files)).Sized s.files.length p d :=
  inv_scan (fun i v => v.Sized i p d) (fun i _ file hv => hv.addFile Handle.word i file)
    (Nat.zero_add _) hu

theorem sized_positions (hu : u.Sized f 0 d) :
    (u.applyAll (s.positions.map (PositionEntry.edit Handle.word))).Sized f s.positions.length
      d := by
  rw [← scan_singleton _ 0]
  refine inv_scan (fun i v => v.Sized f i d) ?_ (Nat.zero_add _) hu
  exact fun _ _ e hv => hv.addPosition Handle.word e

theorem sized_decls (hu : u.Sized f p 1) :
    (u.applyAll (s.decls.map (DeclEntry.edit Handle.word))).Sized f p (s.decls.length + 1) := by
  rw [← scan_singleton _ 0]
  refine inv_scan (fun i v => v.Sized f p (i + 1)) ?_ (Nat.zero_add _) hu
  exact fun _ _ e hv => hv.addDecl Handle.word e

theorem sized_bases (hu : u.Sized f p d) (i : Nat) (e : DeclEntry) :
    (u.applyAll (e.baseEdits Handle.word i)).Sized f p d := by
  rw [DeclEntry.baseEdits, ← scan_singleton _ 0]
  refine inv_scan (fun _ v => v.Sized f p d) ?_ (Nat.zero_add _) hu
  exact fun _ _ _ hv => hv.addBase _ _

/-- The files are added in order. -/
theorem addFiles_of {files : List SourceFile} {i : Nat} (hu : u.Sized i p d) :
    files.foldl addFile (of u) = of (u.applyAll (scan (fileEdits Handle.word) i files)) := by
  induction files generalizing u i with
  | nil => rfl
  | cons file files ih =>
    rw [List.foldl_cons, addFile_of, hu.files, ih (hu.addFile Handle.word i file), scan_cons,
      SourceUnit.applyAll_append]

/-- The base classes of a declaration are settled by the references to them. -/
theorem addBases_eq_settle {i : Nat} (hi : i < s.decls.length)
    (hu : u.Sized f p (s.decls.length + 1)) (e : DeclEntry) :
    (of u).addBases i e =
      settle ((e.baseReferences i).findSome? s.fault?)
        (of (u.applyAll (e.baseEdits Handle.word i))) := by
  rw [addBases, DeclEntry.baseEdits, ← scan_singleton _ 0]
  refine s.pass_eq_settle (fun _ v => v.Sized f p (s.decls.length + 1)) ?_ ?_ (Nat.zero_add _) hu
  · exact fun _ _ _ hv => hv.addBase _ _
  · exact fun j _ _ base hv => s.addBase_eq_settle hi hv j base

/-- The pass over the positions ends with the first fault in one, or with all of them added. -/
theorem positions_eq_settle (hu : u.Sized s.files.length 0 1) :
    pass (fun l => l.addPosition s.positions.length) (of u) 0 s.positions =
      settle ((scan PositionEntry.references 0 s.positions).findSome? s.fault?)
        (of (u.applyAll (s.positions.map (PositionEntry.edit Handle.word)))) := by
  rw [← scan_singleton _ 0]
  refine s.pass_eq_settle (fun i v => v.Sized s.files.length i 1) ?_ ?_ (Nat.zero_add _) hu
  · exact fun _ _ e hv => hv.addPosition Handle.word e
  · exact fun _ hi _ e hv => s.addPosition_eq_settle hi hv e

/-- So does the pass over the declarations, and the one over their base classes below. -/
theorem decls_eq_settle (hu : u.Sized f s.positions.length 1) :
    pass (fun l => l.addDecl s.decls.length) (of u) 0 s.decls =
      settle ((scan DeclEntry.ownReferences 0 s.decls).findSome? s.fault?)
        (of (u.applyAll (s.decls.map (DeclEntry.edit Handle.word)))) := by
  rw [← scan_singleton _ 0]
  refine s.pass_eq_settle (fun i v => v.Sized f s.positions.length (i + 1)) ?_ ?_
    (Nat.zero_add _) hu
  · exact fun _ _ e hv => hv.addDecl Handle.word e
  · exact fun _ hi _ e hv => s.addDecl_eq_settle hi hv e

theorem bases_eq_settle (hu : u.Sized f p (s.decls.length + 1)) :
    pass addBases (of u) 0 s.decls =
      settle ((scan DeclEntry.baseReferences 0 s.decls).findSome? s.fault?)
        (of (u.applyAll (scan (DeclEntry.baseEdits Handle.word) 0 s.decls))) := by
  refine s.pass_eq_settle (fun _ v => v.Sized f p (s.decls.length + 1)) ?_ ?_ (Nat.zero_add _) hu
  · exact fun i _ e hv => sized_bases hv i e
  · exact fun _ hi _ e hv => s.addBases_eq_settle hi hv e

/-- Loading is settled by the references of the snapshot: it gives the first fault, or the unit that
the edits of the snapshot make. -/
theorem load_eq_settle :
    s.load = settle (s.references.findSome? s.fault?)
      (SourceUnit.empty.applyAll (s.edits Handle.word)) := by
  have hfiles := s.sized_files SourceUnit.sized_empty
  rw [load, start_eq_of, addFiles_of SourceUnit.sized_empty, references, edits,
    List.findSome?_append, List.findSome?_append, Option.or_assoc, SourceUnit.applyAll_append,
    SourceUnit.applyAll_append, SourceUnit.applyAll_append]
  -- The second pass is only met if the first has no fault, and the third only after both.
  refine (congrArg (· >>= _) (s.positions_eq_settle hfiles)).trans (settle_bind _ _ _ _ ?_)
  refine (congrArg (· >>= _) (s.decls_eq_settle (s.sized_positions hfiles))).trans
    (settle_bind _ _ _ _ ?_)
  rw [s.bases_eq_settle (s.sized_decls (s.sized_positions hfiles)), settle_map]
  rfl

/-! ## The first fault -/

/-- What loading reports is the fault of a reference with no fault before it. -/
theorem load_eq_error_iff (e : LoadError) :
    s.load = .error e ↔
      ∃ before r after, s.references = before ++ r :: after ∧
        (∀ q ∈ before, ∀ e', ¬ s.Fault q e') ∧ s.Fault r e := by
  rw [load_eq_settle, settle_eq_error_iff, List.findSome?_eq_some_iff]
  constructor
  · rintro ⟨before, r, after, hsplit, hr, hbefore⟩
    exact ⟨before, r, after, hsplit, fun q hq => (s.fault?_eq_none_iff q).1 (hbefore q hq),
      (s.fault?_eq_some_iff r e).1 hr⟩
  · rintro ⟨before, r, after, hsplit, hbefore, hr⟩
    exact ⟨before, r, after, hsplit, (s.fault?_eq_some_iff r e).2 hr,
      fun q hq => (s.fault?_eq_none_iff q).2 (hbefore q hq)⟩

/-- Loading succeeds exactly if no reference is at fault, and then gives the unit that the edits
make. -/
theorem load_eq_ok_iff (u : SourceUnit) :
    s.load = .ok u ↔ s.Faultless ∧ SourceUnit.empty.applyAll (s.edits Handle.word) = u := by
  rw [load_eq_settle, settle_eq_ok_iff, List.findSome?_eq_none_iff]
  simp only [fault?_eq_none_iff, Faultless]

/-- The tables of a loaded unit are as long as the lists of the snapshot, with one declaration
more. -/
theorem sized_of_load {u : SourceUnit} (h : s.load = .ok u) :
    u.Sized s.files.length s.positions.length (s.decls.length + 1) := by
  obtain ⟨-, rfl⟩ := (s.load_eq_ok_iff u).1 h
  rw [edits, SourceUnit.applyAll_append, SourceUnit.applyAll_append, SourceUnit.applyAll_append]
  have hdecls := s.sized_decls (s.sized_positions (s.sized_files SourceUnit.sized_empty))
  refine inv_scan (fun _ v => v.Sized s.files.length s.positions.length (s.decls.length + 1)) ?_
    rfl hdecls
  exact fun i _ e hv => sized_bases hv i e

/-- Whatever loading reports is the fault of some reference. -/
theorem exists_fault_of_load_eq_error {e : LoadError} (h : s.load = .error e) :
    ∃ r ∈ s.references, s.Fault r e := by
  obtain ⟨before, r, after, hsplit, -, hr⟩ := (s.load_eq_error_iff e).1 h
  exact ⟨r, by simp [hsplit], hr⟩

/-- Loading fails exactly if some reference is at fault. What it reports is the fault of the first
such reference in the order of the list, with the place that the reference gives and the words for
where it stands; about a parent or a base class it never says that a position is unknown. -/
theorem load_reports_first_fault :
    ((∃ e, s.load = .error e) ↔ ∃ r ∈ s.references, ∃ e, s.Fault r e) ∧
      (∀ e, s.load = .error e ↔
        ∃ before r after, s.references = before ++ r :: after ∧
          (∀ q ∈ before, ∀ e', ¬ s.Fault q e') ∧ s.Fault r e ∧
          e.index = r.index ∧ e.context = r.context ∧
          e.message = r.context ++ ": " ++ e.complaint) ∧
      ∀ d j index, s.load ≠ .error (.unknownPosition (.parent d) index) ∧
        s.load ≠ .error (.unknownPosition (.base d j) index) := by
  refine ⟨?_, ?_, ?_⟩
  · constructor
    · rintro ⟨e, he⟩
      obtain ⟨r, hr, hfault⟩ := s.exists_fault_of_load_eq_error he
      exact ⟨r, hr, e, hfault⟩
    · rintro ⟨r, hr, e, hfault⟩
      -- A success would mean that no reference is at fault.
      cases hload : s.load with
      | error e' => exact ⟨e', rfl⟩
      | ok u => exact absurd hfault (((s.load_eq_ok_iff u).1 hload).1 r hr e)
  · intro e
    rw [load_eq_error_iff]
    constructor
    · rintro ⟨before, r, after, hsplit, hbefore, hr⟩
      refine ⟨before, r, after, hsplit, hbefore, hr, hr.index_eq, hr.context_eq, ?_⟩
      rw [LoadError.message_eq, hr.context_eq]
    · rintro ⟨before, r, after, hsplit, hbefore, hr, -⟩
      exact ⟨before, r, after, hsplit, hbefore, hr⟩
  · intro d j index
    -- No case of `Fault` puts an unknown position down to a parent or a base class.
    constructor
    · intro h
      obtain ⟨r, -, hfault⟩ := s.exists_fault_of_load_eq_error h
      cases hfault
    · intro h
      obtain ⟨r, -, hfault⟩ := s.exists_fault_of_load_eq_error h
      cases hfault

/-- Of several faults the first one in the order of the references is reported: here an unknown
spelling, and not the unknown expansion after it or the parent that is not earlier. -/
example :
    Snapshot.load ⟨[], [.inMacro 7 9], [.block (some 0)]⟩ =
      .error (.unknownPosition (.spelling 0) 7) := rfl

end Snapshot

end StyleZones

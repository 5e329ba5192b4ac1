import Mathlib.Data.List.Basic
import StyleZones.Snapshot.Load

/-!
# References of a snapshot and their faults

A snapshot is full of references, and loading reports one that leads nowhere. Here the references
are listed first, in the order in which they are written, and each is judged by itself, against the
whole snapshot.

* `Snapshot.references` is the list: the references of the positions, then the parents and positions
  of the declarations, then the base classes.
* `Snapshot.Fault` says which reference is at fault, and what there is to report.
* `Snapshot.fault?` looks for the fault of a reference, and finds it
  (`Snapshot.fault?_eq_some_iff`).

What loading has to do with the list is shown in `StyleZones.Proofs.Snapshot.Load`.
-/

set_option autoImplicit false

namespace StyleZones

/-! ## References -/

/-- A reference of a snapshot: where it stands and the place that it gives. -/
inductive Reference where
  /-- From a position to its file. -/
  | file (position : Nat) (index : UInt64)
  /-- From a position in a macro to where its text is spelled. -/
  | spelling (position : Nat) (index : UInt64)
  /-- From a position in a macro to where the macro is expanded. -/
  | expansion (position : Nat) (index : UInt64)
  /-- From a declaration to the one that it stands in. -/
  | parent (decl : Nat) (index : UInt64)
  /-- From a declaration to its position. -/
  | position (decl : Nat) (index : UInt64)
  /-- From a declaration to one of its base classes. -/
  | base (decl place : Nat) (index : UInt64)
  deriving DecidableEq, Repr

namespace Reference

/-- The place that a reference gives. -/
def index : Reference → UInt64
  | .file _ index => index
  | .spelling _ index => index
  | .expansion _ index => index
  | .parent _ index => index
  | .position _ index => index
  | .base _ _ index => index

/-- Where a reference stands, in the words of the format. -/
def context : Reference → String
  | .file p _ => "positions[" ++ Decimal.text p ++ "]"
  | .spelling p _ => "positions[" ++ Decimal.text p ++ "].spelling"
  | .expansion p _ => "positions[" ++ Decimal.text p ++ "].expansion"
  | .parent d _ => "decls[" ++ Decimal.text d ++ "].parent"
  | .position d _ => "decls[" ++ Decimal.text d ++ "].position"
  | .base d j _ => "decls[" ++ Decimal.text d ++ "].bases[" ++ Decimal.text j ++ "]"

end Reference

namespace Snapshot

/-- What the entries of a list bring, counted from `i`, one entry after the other. -/
def scan {α β : Type} (f : Nat → α → List β) (i : Nat) (as : List α) : List β :=
  (as.zipIdx i).flatMap fun a => f a.2 a.1

@[simp] theorem scan_nil {α β : Type} (f : Nat → α → List β) (i : Nat) : scan f i [] = [] := rfl

@[simp] theorem scan_cons {α β : Type} (f : Nat → α → List β) (i : Nat) (a : α) (as : List α) :
    scan f i (a :: as) = f i a ++ scan f (i + 1) as := by
  simp [scan, List.zipIdx_cons]

/-- Where every entry brings one thing that does not depend on its place, the places do not
matter. -/
theorem scan_singleton {α β : Type} (f : α → β) (i : Nat) (as : List α) :
    scan (fun _ a => [f a]) i as = as.map f := by
  induction as generalizing i with
  | nil => rfl
  | cons a as ih => rw [scan_cons, ih, List.map_cons, List.singleton_append]

/-- What the entries bring is the same if it is the same for each of them at its place. -/
theorem scan_congr {α β : Type} {f g : Nat → α → List β} {as : List α}
    (h : ∀ i a, as[i]? = some a → f i a = g i a) : scan f 0 as = scan g 0 as := by
  refine List.flatMap_congr fun a ha => ?_
  exact h a.2 a.1 (List.mem_zipIdx_iff_getElem?.1 ha)

/-- What a list of entries brings includes what one of the entries brings at its place. -/
theorem mem_scan {α β : Type} {f : Nat → α → List β} {as : List α} {i : Nat} {a : α} {b : β}
    (ha : as[i]? = some a) (hb : b ∈ f i a) : b ∈ scan f 0 as := by
  refine List.mem_flatMap.2 ⟨(a, i), ?_, hb⟩
  exact List.mem_zipIdx_iff_getElem?.2 ha

end Snapshot

/-- The references of a position at place `i`. -/
def PositionEntry.references (i : Nat) : PositionEntry → List Reference
  | .inFile file _ _ => [.file i file]
  | .inMacro spelling expansion => [.spelling i spelling, .expansion i expansion]
  | .invalid => []

namespace DeclEntry

/-- The references of a declaration at place `i`, the base classes left out: the parent before the
position. -/
def ownReferences (i : Nat) (e : DeclEntry) : List Reference :=
  e.parent.toList.map (.parent i) ++ e.position.toList.map (.position i)

/-- The references of a declaration at place `i` to its base classes. An unknown base class is
none. -/
def baseReferences (i : Nat) (e : DeclEntry) : List Reference :=
  Snapshot.scan (fun j base => base.toList.map (.base i j)) 0 e.bases

end DeclEntry

namespace LoadError

/-- Where the reported reference stands, in the words of the format. -/
def context : LoadError → String
  | .unknownFile p _ => "positions[" ++ Decimal.text p ++ "]"
  | .unknownPosition site _ => site.text
  | .unknownDecl site _ => site.text
  | .forwardReference site _ => site.text

/-- The place that the reported reference gives. -/
def index : LoadError → UInt64
  | .unknownFile _ index => index
  | .unknownPosition _ index => index
  | .unknownDecl _ index => index
  | .forwardReference _ index => index

/-- What is wrong with the reported reference. -/
def complaint : LoadError → String
  | .unknownFile _ index => "unknown file index " ++ Decimal.text index.toNat
  | .unknownPosition _ index => "unknown position index " ++ Decimal.text index.toNat
  | .unknownDecl _ index => "unknown declaration index " ++ Decimal.text index.toNat
  | .forwardReference _ index =>
      "index " ++ Decimal.text index.toNat ++ " must refer to an earlier entry"

/-- What is said about a fault names the place of the reference first. -/
theorem message_eq (e : LoadError) : e.message = e.context ++ ": " ++ e.complaint := by
  -- The words of a message run across the colon, so that each case first cuts its own text there.
  cases e with
  | unknownFile p i =>
    have hwords : "]: unknown file index " = "]" ++ ": " ++ "unknown file index " := by decide
    show "positions[" ++ Decimal.text p ++ "]: unknown file index " ++ Decimal.text i.toNat =
      "positions[" ++ Decimal.text p ++ "]" ++ ": " ++
        ("unknown file index " ++ Decimal.text i.toNat)
    rw [hwords, ← String.append_assoc, ← String.append_assoc, ← String.append_assoc]
  | unknownPosition site i =>
    have hwords : ": unknown position index " = ": " ++ "unknown position index " := by decide
    show site.text ++ ": unknown position index " ++ Decimal.text i.toNat =
      site.text ++ ": " ++ ("unknown position index " ++ Decimal.text i.toNat)
    rw [hwords, ← String.append_assoc, ← String.append_assoc]
  | unknownDecl site i =>
    have hwords : ": unknown declaration index " = ": " ++ "unknown declaration index " := by decide
    show site.text ++ ": unknown declaration index " ++ Decimal.text i.toNat =
      site.text ++ ": " ++ ("unknown declaration index " ++ Decimal.text i.toNat)
    rw [hwords, ← String.append_assoc, ← String.append_assoc]
  | forwardReference site i =>
    have hwords : ": index " = ": " ++ "index " := by decide
    show site.text ++ ": index " ++ Decimal.text i.toNat ++ " must refer to an earlier entry" =
      site.text ++ ": " ++ ("index " ++ Decimal.text i.toNat ++ " must refer to an earlier entry")
    rw [hwords, ← String.append_assoc, ← String.append_assoc, ← String.append_assoc]

end LoadError

namespace Snapshot

variable (s : Snapshot)

/-- The references of a snapshot: those of the positions, then the parents and positions of the
declarations, then the base classes. -/
def references : List Reference :=
  scan PositionEntry.references 0 s.positions ++
    scan DeclEntry.ownReferences 0 s.decls ++
    scan DeclEntry.baseReferences 0 s.decls

/-- The reference is at fault, and this is to be reported. A link of a macro position and a parent
have to lead to an earlier entry of their own list; the other references may lead to any entry. -/
inductive Fault : Reference → LoadError → Prop
  | file {p : Nat} {i : UInt64} : s.files.length ≤ i.toNat → Fault (.file p i) (.unknownFile p i)
  | unknownSpelling {p : Nat} {i : UInt64} : s.positions.length ≤ i.toNat →
      Fault (.spelling p i) (.unknownPosition (.spelling p) i)
  | laterSpelling {p : Nat} {i : UInt64} : p ≤ i.toNat → i.toNat < s.positions.length →
      Fault (.spelling p i) (.forwardReference (.spelling p) i)
  | unknownExpansion {p : Nat} {i : UInt64} : s.positions.length ≤ i.toNat →
      Fault (.expansion p i) (.unknownPosition (.expansion p) i)
  | laterExpansion {p : Nat} {i : UInt64} : p ≤ i.toNat → i.toNat < s.positions.length →
      Fault (.expansion p i) (.forwardReference (.expansion p) i)
  | unknownParent {d : Nat} {i : UInt64} : s.decls.length ≤ i.toNat →
      Fault (.parent d i) (.unknownDecl (.parent d) i)
  | laterParent {d : Nat} {i : UInt64} : d ≤ i.toNat → i.toNat < s.decls.length →
      Fault (.parent d i) (.forwardReference (.parent d) i)
  | position {d : Nat} {i : UInt64} : s.positions.length ≤ i.toNat →
      Fault (.position d i) (.unknownPosition (.declPosition d) i)
  | base {d j : Nat} {i : UInt64} : s.decls.length ≤ i.toNat →
      Fault (.base d j i) (.unknownDecl (.base d j) i)

/-! ## Looking for a fault -/

/-- The fault of a reference that has to lead to an entry before `place` in a list of `total`
entries. -/
def earlierFault? (unknown : RefSite → UInt64 → LoadError) (total place : Nat) (site : RefSite)
    (index : UInt64) : Option LoadError :=
  if total ≤ index.toNat then some (unknown site index)
  else if place ≤ index.toNat then some (.forwardReference site index)
  else none

/-- The fault of a reference that has to lead to an entry in a list of `total` entries. -/
def listedFault? (unknown : RefSite → UInt64 → LoadError) (total : Nat) (site : RefSite)
    (index : UInt64) : Option LoadError :=
  if total ≤ index.toNat then some (unknown site index) else none

/-- The fault of a reference, if it is at fault. -/
def fault? : Reference → Option LoadError
  | .file p i => if s.files.length ≤ i.toNat then some (.unknownFile p i) else none
  | .spelling p i => earlierFault? .unknownPosition s.positions.length p (.spelling p) i
  | .expansion p i => earlierFault? .unknownPosition s.positions.length p (.expansion p) i
  | .parent d i => earlierFault? .unknownDecl s.decls.length d (.parent d) i
  | .position d i => listedFault? .unknownPosition s.positions.length (.declPosition d) i
  | .base d j i => listedFault? .unknownDecl s.decls.length (.base d j) i

theorem earlierFault?_eq_some_iff {unknown : RefSite → UInt64 → LoadError} {total place : Nat}
    {site : RefSite} {index : UInt64} {e : LoadError} :
    earlierFault? unknown total place site index = some e ↔
      total ≤ index.toNat ∧ e = unknown site index ∨
        (place ≤ index.toNat ∧ index.toNat < total) ∧ e = .forwardReference site index := by
  unfold earlierFault?
  by_cases htotal : total ≤ index.toNat
  · have hlater : ¬ index.toNat < total := by omega
    simp [htotal, hlater, eq_comm]
  · have hlisted : index.toNat < total := by omega
    by_cases hplace : place ≤ index.toNat
    · simp [htotal, hplace, hlisted, eq_comm]
    · simp [htotal, hplace]

theorem earlierFault?_eq_none_iff {unknown : RefSite → UInt64 → LoadError} {total place : Nat}
    {site : RefSite} {index : UInt64} :
    earlierFault? unknown total place site index = none ↔
      index.toNat < total ∧ index.toNat < place := by
  unfold earlierFault?
  by_cases htotal : total ≤ index.toNat
  · have hlater : ¬ index.toNat < total := by omega
    simp [htotal, hlater]
  · have hlisted : index.toNat < total := by omega
    by_cases hplace : place ≤ index.toNat
    · simp [htotal, hplace]
    · have hearlier : index.toNat < place := by omega
      simp [htotal, hplace, hlisted, hearlier]

theorem listedFault?_eq_some_iff {unknown : RefSite → UInt64 → LoadError} {total : Nat}
    {site : RefSite} {index : UInt64} {e : LoadError} :
    listedFault? unknown total site index = some e ↔
      total ≤ index.toNat ∧ e = unknown site index := by
  unfold listedFault?
  by_cases htotal : total ≤ index.toNat
  · simp [htotal, eq_comm]
  · simp [htotal]

/-- The search for a fault finds exactly the faults. -/
theorem fault?_eq_some_iff (r : Reference) (e : LoadError) : s.fault? r = some e ↔ s.Fault r e := by
  constructor
  · intro h
    -- A macro link and a parent can be at fault in two ways, the other references in one.
    cases r with
    | file p i =>
      by_cases hfile : s.files.length ≤ i.toNat
      · simp only [fault?, hfile, if_true, Option.some.injEq] at h
        subst h
        exact .file hfile
      · simp [fault?, hfile] at h
    | spelling p i =>
      rcases earlierFault?_eq_some_iff.1 h with ⟨hi, rfl⟩ | ⟨⟨hp, hi⟩, rfl⟩
      · exact .unknownSpelling hi
      · exact .laterSpelling hp hi
    | expansion p i =>
      rcases earlierFault?_eq_some_iff.1 h with ⟨hi, rfl⟩ | ⟨⟨hp, hi⟩, rfl⟩
      · exact .unknownExpansion hi
      · exact .laterExpansion hp hi
    | parent d i =>
      rcases earlierFault?_eq_some_iff.1 h with ⟨hi, rfl⟩ | ⟨⟨hd, hi⟩, rfl⟩
      · exact .unknownParent hi
      · exact .laterParent hd hi
    | position d i =>
      obtain ⟨hi, rfl⟩ := listedFault?_eq_some_iff.1 h
      exact .position hi
    | base d j i =>
      obtain ⟨hi, rfl⟩ := listedFault?_eq_some_iff.1 h
      exact .base hi
  · intro h
    cases h with
    | file hi => exact if_pos hi
    | unknownSpelling hi => exact earlierFault?_eq_some_iff.2 (Or.inl ⟨hi, rfl⟩)
    | laterSpelling hp hi => exact earlierFault?_eq_some_iff.2 (Or.inr ⟨⟨hp, hi⟩, rfl⟩)
    | unknownExpansion hi => exact earlierFault?_eq_some_iff.2 (Or.inl ⟨hi, rfl⟩)
    | laterExpansion hp hi => exact earlierFault?_eq_some_iff.2 (Or.inr ⟨⟨hp, hi⟩, rfl⟩)
    | unknownParent hi => exact earlierFault?_eq_some_iff.2 (Or.inl ⟨hi, rfl⟩)
    | laterParent hd hi => exact earlierFault?_eq_some_iff.2 (Or.inr ⟨⟨hd, hi⟩, rfl⟩)
    | position hi => exact listedFault?_eq_some_iff.2 ⟨hi, rfl⟩
    | base hi => exact listedFault?_eq_some_iff.2 ⟨hi, rfl⟩

theorem fault?_eq_none_iff (r : Reference) : s.fault? r = none ↔ ∀ e, ¬ s.Fault r e := by
  rw [Option.eq_none_iff_forall_ne_some]
  constructor
  · intro h e he
    exact h e ((s.fault?_eq_some_iff r e).2 he)
  · intro h e he
    exact h e ((s.fault?_eq_some_iff r e).1 he)

/-- A fault is reported with the place that the reference gives. -/
theorem Fault.index_eq {r : Reference} {e : LoadError} (h : s.Fault r e) : e.index = r.index := by
  cases h <;> rfl

/-- A fault is reported under the place where the reference stands. -/
theorem Fault.context_eq {r : Reference} {e : LoadError} (h : s.Fault r e) :
    e.context = r.context := by
  cases h <;> rfl

/-! ## Snapshots without faults -/

/-- No reference of the snapshot is at fault. -/
def Faultless : Prop :=
  ∀ r ∈ s.references, ∀ e, ¬ s.Fault r e

variable {s}

theorem mem_references_of_position {i : Nat} {e : PositionEntry} {r : Reference}
    (he : s.positions[i]? = some e) (hr : r ∈ e.references i) : r ∈ s.references :=
  List.mem_append_left _ (List.mem_append_left _ (mem_scan he hr))

theorem mem_references_of_decl {i : Nat} {e : DeclEntry} {r : Reference}
    (he : s.decls[i]? = some e) (hr : r ∈ e.ownReferences i) : r ∈ s.references :=
  List.mem_append_left _ (List.mem_append_right _ (mem_scan he hr))

theorem mem_references_of_base {i j : Nat} {e : DeclEntry} {b : UInt64} (he : s.decls[i]? = some e)
    (hb : e.bases[j]? = some (some b)) : Reference.base i j b ∈ s.references := by
  have hentry : Reference.base i j b ∈ e.baseReferences i := mem_scan hb (by simp)
  exact List.mem_append_right _ (mem_scan he hentry)

namespace Faultless

/-- Nothing is found where no reference is at fault. -/
theorem fault?_eq_none (hs : s.Faultless) {r : Reference} (hr : r ∈ s.references) :
    s.fault? r = none :=
  (s.fault?_eq_none_iff r).2 (hs r hr)

/-- A position in a file names a file of the snapshot. -/
theorem file_lt (hs : s.Faultless) {p : Nat} {file : UInt64} {line column : UInt32}
    (h : s.positions[p]? = some (.inFile file line column)) : file.toNat < s.files.length := by
  have hmem : Reference.file p file ∈ s.references :=
    mem_references_of_position h (by simp [PositionEntry.references])
  by_contra hlarge
  exact hs _ hmem _ (.file (by omega))

/-- The links of a macro position lead to earlier positions. -/
theorem link_lt (hs : s.Faultless) {p : Nat} {spelling expansion : UInt64}
    (h : s.positions[p]? = some (.inMacro spelling expansion)) :
    spelling.toNat < p ∧ expansion.toNat < p := by
  have hspelling : Reference.spelling p spelling ∈ s.references :=
    mem_references_of_position h (by simp [PositionEntry.references])
  have hexpansion : Reference.expansion p expansion ∈ s.references :=
    mem_references_of_position h (by simp [PositionEntry.references])
  constructor
  · exact (earlierFault?_eq_none_iff.1 (hs.fault?_eq_none hspelling)).2
  · exact (earlierFault?_eq_none_iff.1 (hs.fault?_eq_none hexpansion)).2

/-- A declaration with a position names a position of the snapshot. -/
theorem position_lt (hs : s.Faultless) {i : Nat} {e : DeclEntry} {p : UInt64}
    (he : s.decls[i]? = some e) (hp : e.position = some p) : p.toNat < s.positions.length := by
  have hmem : Reference.position i p ∈ s.references :=
    mem_references_of_decl he (by simp [DeclEntry.ownReferences, hp])
  by_contra hlarge
  exact hs _ hmem _ (.position (by omega))

/-- A parent is an earlier declaration of the snapshot. -/
theorem parent_lt (hs : s.Faultless) {i : Nat} {e : DeclEntry} {q : UInt64}
    (he : s.decls[i]? = some e) (hq : e.parent = some q) : q.toNat < s.decls.length := by
  have hmem : Reference.parent i q ∈ s.references :=
    mem_references_of_decl he (by simp [DeclEntry.ownReferences, hq])
  exact (earlierFault?_eq_none_iff.1 (hs.fault?_eq_none hmem)).1

/-- A known base class is a declaration of the snapshot. -/
theorem base_lt (hs : s.Faultless) {i : Nat} {e : DeclEntry} {b : UInt64}
    (he : s.decls[i]? = some e) (hb : some b ∈ e.bases) : b.toNat < s.decls.length := by
  obtain ⟨j, hj⟩ := List.mem_iff_getElem?.1 hb
  by_contra hlarge
  exact hs _ (mem_references_of_base he hj) _ (.base (by omega))

end Faultless

end Snapshot

end StyleZones

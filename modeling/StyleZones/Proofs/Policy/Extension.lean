import Mathlib.Data.List.Sort
import StyleZones.Policy.Basic
import StyleZones.Proofs.Text.Bytes

/-!
# Extending a policy

What one extension of a policy does, said without its loops.

* The entries are looked at in one row: directories, then names of types, then base classes
  (`Entries.listed`). The extension succeeds exactly if all of them are well formed, and otherwise
  reports the first that is not (`Policy.extend_eq_ok_iff`, `Policy.extend_eq_error_iff`).
* If it succeeds, each list holds what it held and the new entries, in strictly increasing order and
  so without repetition (`Policy.united_joins`, `Listing.increasing_insertAll`).
-/

set_option autoImplicit false

namespace StyleZones

/-! ## Ordered listings -/

namespace Listing

variable {α : Type} {text : α → String}

/-- The texts of the entries strictly increase. -/
def Increasing (text : α → String) (as : List α) : Prop :=
  as.Pairwise fun a b => text a < text b

theorem mem_of_mem_insert {a x : α} {bs : List α} (hx : x ∈ insert text a bs) : x = a ∨ x ∈ bs := by
  induction bs with
  | nil => exact Or.inl (List.mem_singleton.1 hx)
  | cons b bs ih =>
    rw [insert] at hx
    split_ifs at hx
    · exact List.mem_cons.1 hx
    · exact Or.inr hx
    · rcases List.mem_cons.1 hx with rfl | hx
      · exact Or.inr List.mem_cons_self
      · exact (ih hx).imp_right (List.mem_cons_of_mem b)

/-- Putting an entry in its place keeps a listing in order, and adds no second copy. -/
theorem increasing_insert (a : α) {bs : List α} (h : Increasing text bs) :
    Increasing text (insert text a bs) := by
  induction bs with
  | nil => exact List.pairwise_singleton _ a
  | cons b bs ih =>
    obtain ⟨hb, hbs⟩ := List.pairwise_cons.1 h
    rw [insert]
    split_ifs with hlt heq
    · -- The new entry is below the first one, and so below all.
      refine List.pairwise_cons.2 ⟨fun x hx => ?_, h⟩
      rcases List.mem_cons.1 hx with rfl | hx
      · exact hlt
      · exact lt_trans hlt (hb x hx)
    · exact h
    · refine List.pairwise_cons.2 ⟨fun x hx => ?_, ih hbs⟩
      rcases mem_of_mem_insert hx with rfl | hx
      · exact lt_of_le_of_ne (not_lt.1 hlt) (Ne.symm heq)
      · exact hb x hx

theorem increasing_insertAll (as : List α) {bs : List α} (h : Increasing text bs) :
    Increasing text (insertAll text as bs) := by
  induction as generalizing bs with
  | nil => exact h
  | cons a as ih => exact ih (increasing_insert a h)

/-! Where the text tells entries apart, an ordered listing is the set of its entries. -/

section Injective

variable (hinj : Function.Injective text)
include hinj

/-- Only the new entry is added, and no entry is lost. -/
theorem mem_insert {a x : α} {bs : List α} : x ∈ insert text a bs ↔ x = a ∨ x ∈ bs := by
  refine ⟨mem_of_mem_insert, fun hx => ?_⟩
  induction bs with
  | nil =>
    rcases hx with rfl | hx
    · exact List.mem_cons_self
    · cases hx
  | cons b bs ih =>
    rw [insert]
    split_ifs with hlt heq
    · exact List.mem_cons.2 hx
    · rcases hx with rfl | hx
      · rw [hinj heq]
        exact List.mem_cons_self
      · exact hx
    · rcases hx with rfl | hx
      · exact List.mem_cons_of_mem b (ih (Or.inl rfl))
      · rcases List.mem_cons.1 hx with rfl | hx
        · exact List.mem_cons_self
        · exact List.mem_cons_of_mem b (ih (Or.inr hx))

theorem mem_insertAll {as bs : List α} {x : α} : x ∈ insertAll text as bs ↔ x ∈ bs ∨ x ∈ as := by
  induction as generalizing bs with
  | nil => simp [insertAll]
  | cons a as ih =>
    calc x ∈ insertAll text (a :: as) bs
        ↔ x ∈ insert text a bs ∨ x ∈ as := ih
      _ ↔ (x = a ∨ x ∈ bs) ∨ x ∈ as := by rw [mem_insert hinj]
      _ ↔ x ∈ bs ∨ x ∈ a :: as := by rw [List.mem_cons]; tauto

end Injective

/-- Ordered listings with the same entries are equal. -/
theorem eq_of_mem_iff {as bs : List α} (ha : Increasing text as) (hb : Increasing text bs)
    (hmem : ∀ x, x ∈ as ↔ x ∈ bs) : as = bs := by
  have : Std.Irrefl fun a b : α => text a < text b := ⟨fun a => lt_irrefl (text a)⟩
  have : Std.Antisymm fun a b : α => text a < text b :=
    ⟨fun a b hab hba => absurd hab (lt_asymm hba)⟩
  exact List.Pairwise.eq_of_mem_iff ha hb hmem

end Listing

/-! ## Entries -/

/-- One entry for a policy, not yet looked at. -/
inductive Entry where
  /-- The text of a directory marker. -/
  | directory (text : String)
  /-- The name of a type. -/
  | type (name : String)
  /-- The qualified name of a base class. -/
  | base (name : String)
  deriving DecidableEq, Repr

namespace Entry

/-- The entry can stand in a policy: a directory has two bytes at least, of which the first and the
last are separators, and a name is not empty. -/
def Valid : Entry → Prop
  | .directory text =>
      2 ≤ text.utf8ByteSize ∧ text.toList.head? = some '/' ∧ text.toList.getLast? = some '/'
  | .type name => name ≠ ""
  | .base name => name ≠ ""

instance : (x : Entry) → Decidable x.Valid
  | .directory text =>
      inferInstanceAs (Decidable (2 ≤ text.utf8ByteSize ∧ text.toList.head? = some '/' ∧
        text.toList.getLast? = some '/'))
  | .type name => inferInstanceAs (Decidable (name ≠ ""))
  | .base name => inferInstanceAs (Decidable (name ≠ ""))

/-- What is wrong with an entry that cannot. -/
def error : Entry → PolicyError
  | .directory text => .unboundedDirectory text
  | .type _ => .emptyEntry "ignored_record_names"
  | .base _ => .emptyEntry "ignored_base_classes"

end Entry

/-- A text has two bytes at least if it has two characters, and none that has only a separator. -/
theorem two_le_utf8ByteSize_iff {text : String} {rest : List Char} (h : text.toList = '/' :: rest) :
    2 ≤ text.utf8ByteSize ↔ rest ≠ [] := by
  rw [← Text.length_bytes, Text.bytes_eq_flatMap, h]
  cases rest with
  | nil => decide
  | cons c rest =>
    simp only [List.flatMap_cons, Text.utf8EncodeChar_eq, List.length_append,
      List.length_cons, ne_eq, reduceCtorEq, not_false_eq_true, iff_true]
    omega

/-- A text is bounded exactly if it can stand in a policy as a directory. -/
theorem isBounded_iff (text : String) : isBounded text = true ↔ (Entry.directory text).Valid := by
  show _ ↔ 2 ≤ text.utf8ByteSize ∧ text.toList.head? = some '/' ∧ text.toList.getLast? = some '/'
  unfold isBounded
  split
  case h_1 rest htext =>
    rw [two_le_utf8ByteSize_iff htext, htext]
    cases rest with
    | nil => simp
    | cons c rest => simp
  case h_2 hnot =>
    constructor
    · intro h
      cases h
    · rintro ⟨-, hhead, -⟩
      obtain ⟨rest, htext⟩ := List.head?_eq_some_iff.1 hhead
      exact absurd htext (hnot rest)

namespace Entries

/-- The entries in the order in which they are looked at. -/
def listed (e : Entries) : List Entry :=
  e.directories.map .directory ++ e.types.map .type ++ e.bases.map .base

/-- Every entry can stand in a policy. -/
def Valid (e : Entries) : Prop :=
  ∀ x ∈ e.listed, x.Valid

instance (e : Entries) : Decidable e.Valid :=
  inferInstanceAs (Decidable (∀ x ∈ e.listed, x.Valid))

/-- Look at entries one after the other, up to the first that cannot stand in a policy. -/
def vet : List Entry → Except PolicyError Unit
  | [] => .ok ()
  | x :: xs => if x.Valid then vet xs else .error x.error

/-- Entries in a row are looked at in turn: the second part only if the first has no fault. -/
theorem vet_append (xs ys : List Entry) : vet (xs ++ ys) = (vet xs >>= fun _ => vet ys) := by
  induction xs with
  | nil => rfl
  | cons x xs ih =>
    rw [List.cons_append, vet, vet, ih]
    split_ifs
    · rfl
    · rfl

/-- All is well exactly if every entry is. -/
theorem vet_eq_ok_iff (xs : List Entry) : vet xs = .ok () ↔ ∀ x ∈ xs, x.Valid := by
  induction xs with
  | nil => simp [vet]
  | cons x xs ih =>
    rw [vet, List.forall_mem_cons]
    split_ifs with hx
    · rw [ih, and_iff_right hx]
    · simp [hx]

/-- The first entry that cannot stand in a policy is the one that is reported. -/
theorem vet_eq_error_iff (xs : List Entry) (fault : PolicyError) :
    vet xs = .error fault ↔
      ∃ before x after, xs = before ++ x :: after ∧ (∀ y ∈ before, y.Valid) ∧ ¬ x.Valid ∧
        fault = x.error := by
  induction xs with
  | nil => simp [vet]
  | cons x xs ih =>
    rw [vet]
    split_ifs with hx
    · rw [ih]
      constructor
      · rintro ⟨before, y, after, rfl, hbefore, hy, rfl⟩
        exact ⟨x :: before, y, after, rfl, List.forall_mem_cons.2 ⟨hx, hbefore⟩, hy, rfl⟩
      · rintro ⟨before, y, after, hxs, hbefore, hy, rfl⟩
        -- The first entry is valid, so it stands before the one that is not.
        cases before with
        | nil =>
          obtain ⟨rfl, -⟩ := List.cons.inj hxs
          exact absurd hx hy
        | cons z before =>
          obtain ⟨rfl, rfl⟩ := List.cons.inj hxs
          exact ⟨before, y, after, rfl, (List.forall_mem_cons.1 hbefore).2, hy, rfl⟩
    · constructor
      · intro h
        exact ⟨[], x, xs, rfl, List.forall_mem_nil _, hx, (Except.error.inj h).symm⟩
      · rintro ⟨before, y, after, hxs, hbefore, -, rfl⟩
        cases before with
        | nil =>
          obtain ⟨rfl, -⟩ := List.cons.inj hxs
          rfl
        | cons z before =>
          obtain ⟨rfl, -⟩ := List.cons.inj hxs
          exact absurd ((List.forall_mem_cons.1 hbefore).1) hx

/-! ### The three loops -/

/-- The markers of those texts that are bounded. -/
def boundedMarkers (texts : List String) : List Marker :=
  texts.filterMap fun text => if h : isBounded text = true then some ⟨text, h⟩ else none

theorem mem_boundedMarkers {texts : List String} {m : Marker} :
    m ∈ boundedMarkers texts ↔ m.text ∈ texts := by
  rw [boundedMarkers, List.mem_filterMap]
  constructor
  · rintro ⟨text, htext, hm⟩
    split_ifs at hm
    obtain rfl := Option.some.inj hm
    exact htext
  · intro hm
    exact ⟨m.text, hm, by rw [dif_pos m.bounded]⟩

/-- Texts become markers if all of them are fit to be directories. -/
theorem markers_eq_vet (texts : List String) :
    markers texts = (vet (texts.map .directory)).map fun _ => boundedMarkers texts := by
  induction texts with
  | nil => rfl
  | cons text texts ih =>
    rw [markers, List.map_cons, vet, ih, Marker.ofText]
    by_cases h : isBounded text = true
    · have hmarkers : boundedMarkers (text :: texts) = ⟨text, h⟩ :: boundedMarkers texts := by
        rw [boundedMarkers, List.filterMap_cons, dif_pos h]
        rfl
      rw [dif_pos h, if_pos ((isBounded_iff text).1 h), hmarkers]
      cases vet (texts.map .directory) <;> rfl
    · rw [dif_neg h, if_neg (mt (isBounded_iff text).2 h)]
      rfl

/-- Names are looked at one by one for being empty, whatever they are names of. -/
theorem checkNames_eq_vet {kind : String → Entry} {category : String}
    (hvalid : ∀ name, (kind name).Valid ↔ name ≠ "")
    (herror : ∀ name, (kind name).error = .emptyEntry category) (names : List String) :
    checkNames category names = vet (names.map kind) := by
  induction names with
  | nil => rfl
  | cons name names ih =>
    rw [checkNames, List.map_cons, vet, ih, herror]
    by_cases h : name = ""
    · rw [if_pos (by rw [h]; rfl), if_neg (mt (hvalid name).1 (not_not.2 h))]
    · rw [if_neg (by rw [String.isEmpty_iff]; exact h), if_pos ((hvalid name).2 h)]

end Entries

/-! ## Policies -/

namespace Marker

theorem text_injective : Function.Injective text := by
  intro a b h
  cases a
  cases b
  cases h
  rfl

end Marker

namespace Policy

/-- Each list of the third has the entries of the first and those of the second, and no others. -/
structure Joins (p : Policy) (e : Entries) (q : Policy) : Prop where
  /-- The directories. -/
  directories : ∀ m, m ∈ q.directories ↔ m ∈ p.directories ∨ m.text ∈ e.directories
  /-- The names of types. -/
  types : ∀ name, name ∈ q.types ↔ name ∈ p.types ∨ name ∈ e.types
  /-- The base classes. -/
  bases : ∀ name, name ∈ q.bases ↔ name ∈ p.bases ∨ name ∈ e.bases

/-- The policy with all entries that can stand in it. -/
def united (p : Policy) (e : Entries) : Policy where
  directories := Listing.insertAll Marker.text (Entries.boundedMarkers e.directories) p.directories
  types := Listing.insertAll id e.types p.types
  bases := Listing.insertAll id e.bases p.bases

variable (p : Policy) (e : Entries)

/-- The united policy has the old entries and the new ones. -/
theorem united_joins : p.Joins e (p.united e) where
  directories := by
    intro m
    rw [united, Listing.mem_insertAll Marker.text_injective, Entries.mem_boundedMarkers]
  types := fun _ => Listing.mem_insertAll Function.injective_id
  bases := fun _ => Listing.mem_insertAll Function.injective_id

/-- An update looks at all entries in a row before it adds the first of them, so that after a fault
the policy is the one that it began with. -/
theorem update_eq_vet : p.update e = (Entries.vet e.listed, if e.Valid then p.united e else p) := by
  have htypes :
      Entries.checkNames Entries.typesCategory e.types = Entries.vet (e.types.map .type) :=
    Entries.checkNames_eq_vet (fun _ => Iff.rfl) (fun _ => rfl) e.types
  have hbases :
      Entries.checkNames Entries.basesCategory e.bases = Entries.vet (e.bases.map .base) :=
    Entries.checkNames_eq_vet (fun _ => Iff.rfl) (fun _ => rfl) e.bases
  have hvalid : e.Valid ↔ Entries.vet e.listed = .ok () := (Entries.vet_eq_ok_iff e.listed).symm
  rw [update, addEntries, if_congr hvalid rfl rfl, Entries.listed, Entries.vet_append,
    Entries.vet_append, Entries.markers_eq_vet, htypes, hbases]
  cases Entries.vet (e.directories.map .directory) with
  | error fault => rfl
  | ok _ =>
    cases Entries.vet (e.types.map .type) with
    | error fault => rfl
    | ok _ => cases Entries.vet (e.bases.map .base) <;> rfl

theorem extend_eq_vet : p.extend e = (Entries.vet e.listed).map fun _ => p.united e := by
  have hvalid : e.Valid ↔ Entries.vet e.listed = .ok () := (Entries.vet_eq_ok_iff e.listed).symm
  rw [extend, update_eq_vet, if_congr hvalid rfl rfl]
  cases Entries.vet e.listed <;> rfl

/-- An extension succeeds exactly if all its entries are valid, and gives the united policy. -/
theorem extend_eq_ok_iff (q : Policy) : p.extend e = .ok q ↔ e.Valid ∧ q = p.united e := by
  rw [extend_eq_vet, Entries.Valid, ← Entries.vet_eq_ok_iff]
  cases Entries.vet e.listed with
  | error fault => simp [Except.map]
  | ok _ => simp [Except.map, eq_comm]

/-- An extension fails with the error of the first entry that is not valid. -/
theorem extend_eq_error_iff (fault : PolicyError) :
    p.extend e = .error fault ↔
      ∃ before x after, e.listed = before ++ x :: after ∧ (∀ y ∈ before, y.Valid) ∧ ¬ x.Valid ∧
        fault = x.error := by
  rw [extend_eq_vet, ← Entries.vet_eq_error_iff]
  cases Entries.vet e.listed with
  | error _ => simp [Except.map]
  | ok _ => simp [Except.map]

end Policy

end StyleZones

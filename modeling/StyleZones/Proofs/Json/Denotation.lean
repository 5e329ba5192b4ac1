import StyleZones.Proofs.Json.Fields

/-!
# What documents denote

A text has many spellings as a string, since each of its characters may be escaped, and a number may
be written with zeros in front of it. `Json.IsText` and `Json.IsNumber` say which documents show a
given value, `Json.OrNull` and `Json.IsListOf` go from there to values that may be missing and to
lists. None of them mentions a reader.

* `Json.Reads`: a reader finds a value in exactly the documents that show it. It holds of every
  reader of scalars (`reads_text`, `reads_bool`, `reads_uint32`, `reads_uint64`) and is kept by the
  combinators (`Reads.orNull`, `Reads.list`).
* `Json.isHoldable_arr_iff` and `Json.isHoldable_obj_iff`: a container can be held if what stands in
  it can, with one level less. What shows a scalar can be held at any level (`isHoldable_of_isText`,
  `isHoldable_of_isNumber`).
-/

set_option autoImplicit false

namespace StyleZones

namespace Json

/-! ## Documents that show a value -/

/-- The document is a string that spells the text, with or without escapes. -/
def IsText (t : String) (v : Json) : Prop :=
  ∃ raw, v = .str raw ∧ Quoted.decode raw = some t.toList

/-- The document is a run of digits with the number as its place value. -/
def IsNumber (n : Nat) (v : Json) : Prop :=
  ∃ ds, v = .num ds ∧ ds ≠ [] ∧ (∀ c ∈ ds, c.isDigit = true) ∧ Decimal.value ds = n

/-- The document is `null` if the value is missing, and shows the value otherwise. -/
def OrNull {α : Type} (Shows : α → Json → Prop) : Option α → Json → Prop
  | none, v => v = .null
  | some a, v => Shows a v

/-- The document is an array that shows the values one by one. -/
def IsListOf {α : Type} (Shows : α → Json → Prop) (as : List α) (v : Json) : Prop :=
  ∃ items, v = .arr items ∧ List.Forall₂ Shows as items

/-- The reader finds a value in exactly the documents that show it. -/
def Reads {α : Type} (read : Json → Option α) (Shows : α → Json → Prop) : Prop :=
  ∀ v a, read v = some a ↔ Shows a v

/-- Texts are read from the strings that spell them, whichever way. -/
theorem reads_text : Reads text? IsText := by
  intro v t
  cases v with
  | str raw =>
    have hspelt : Quoted.decode raw = some t.toList ↔
        (Quoted.decode raw).map String.ofList = some t := by
      rw [Option.map_eq_some_iff]
      constructor
      · exact fun h => ⟨t.toList, h, String.ofList_toList⟩
      · rintro ⟨cs, h, rfl⟩
        rw [h, String.toList_ofList]
    simp [text?, IsText, hspelt]
  | _ => simp [text?, IsText]

theorem reads_bool : Reads bool? fun b v => v = .bool b := by
  intro v b
  cases v with
  | bool c => simp [bool?]
  | _ => simp [bool?]

/-- Natural numbers are read from runs of digits, and from nothing else that is a number. -/
theorem reads_natural : Reads natural? IsNumber := by
  intro v n
  cases v with
  | num ds =>
    simp only [natural?, Numeral.natural?, IsNumber, Json.num.injEq, exists_eq_left']
    by_cases hds : (ds.all Char.isDigit && !ds.isEmpty) = true
    · rw [if_pos hds]
      simp only [Bool.and_eq_true, List.all_eq_true, Bool.not_eq_true',
        List.isEmpty_eq_false_iff] at hds
      rw [Option.some.injEq]
      exact ⟨fun h => ⟨hds.2, hds.1, h⟩, fun h => h.2.2⟩
    · rw [if_neg hds]
      simp only [Bool.and_eq_true, List.all_eq_true, Bool.not_eq_true',
        List.isEmpty_eq_false_iff] at hds
      simp only [reduceCtorEq, false_iff]
      exact fun h => hds ⟨h.2.1, h.1⟩
  | _ => simp [natural?, IsNumber]

/-- A number of a fixed width is read if it fits. -/
theorem reads_uint32 : Reads uint32? fun n : UInt32 => IsNumber n.toNat := by
  intro v n
  simp only [uint32?, Option.bind_eq_bind, Option.bind_eq_some_iff]
  constructor
  · rintro ⟨m, hm, hn⟩
    split_ifs at hn with hsize
    obtain rfl := Option.some.inj hn
    rw [UInt32.toNat_ofNat_of_lt' hsize]
    exact (reads_natural v m).1 hm
  · intro h
    refine ⟨n.toNat, (reads_natural v _).2 h, ?_⟩
    rw [if_pos n.toNat_lt_size, UInt32.ofNat_toNat]

theorem reads_uint64 : Reads uint64? fun n : UInt64 => IsNumber n.toNat := by
  intro v n
  simp only [uint64?, Option.bind_eq_bind, Option.bind_eq_some_iff]
  constructor
  · rintro ⟨m, hm, hn⟩
    split_ifs at hn with hsize
    obtain rfl := Option.some.inj hn
    rw [UInt64.toNat_ofNat_of_lt' hsize]
    exact (reads_natural v m).1 hm
  · intro h
    refine ⟨n.toNat, (reads_natural v _).2 h, ?_⟩
    rw [if_pos n.toNat_lt_size, UInt64.ofNat_toNat]

namespace Reads

variable {α : Type} {read : Json → Option α} {Shows : α → Json → Prop}

/-- A reader can be made to take `null` for a missing value, if it takes `null` for nothing else. -/
theorem orNull (h : Reads read Shows) (hnull : ∀ a, ¬ Shows a .null) :
    Reads (nullable? read) (OrNull Shows) := by
  intro v o
  by_cases hv : v = .null
  · subst hv
    cases o with
    | none => simp [nullable?, OrNull]
    | some a => simp [nullable?, OrNull, hnull a]
  · -- Anything but `null` is handed on to the reader.
    have hread : nullable? read v = (read v).map some := by
      cases v with
      | null => exact absurd rfl hv
      | _ => rfl
    cases o with
    | none => simp [hread, OrNull, hv]
    | some a => simp [hread, OrNull, h v a]

/-- A reader of items makes a reader of lists. -/
theorem list (h : Reads read Shows) : Reads (list? read) (IsListOf Shows) := by
  intro v as
  cases v with
  | arr items =>
    simp only [list?, IsListOf, Json.arr.injEq, exists_eq_left', mapM_eq_some_iff]
    constructor
    · intro hall
      exact (hall.imp fun v a => (h v a).1).flip
    · intro hall
      exact (hall.imp fun a v => (h v a).2).flip
  | _ => simp [list?, IsListOf]

end Reads

/-! ## Holding what shows a value -/

theorem isHoldable_iff {n : Nat} {v : Json} :
    v.isHoldable n = true ↔ v.isReadable = true ∧ v.depth ≤ n := by
  simp [isHoldable]

/-- An array takes up one level, and the rest is left to its items. -/
theorem isHoldable_arr_iff {n : Nat} {items : List Json} :
    (Json.arr items).isHoldable (n + 1) = true ↔ ∀ v ∈ items, v.isHoldable n = true := by
  simp only [isHoldable_iff, isReadable, areItemsReadable_iff, depth, Nat.add_le_add_iff_right,
    itemsDepth_le_iff]
  exact ⟨fun h v hv => ⟨h.1 v hv, h.2 v hv⟩,
    fun h => ⟨fun v hv => (h v hv).1, fun v hv => (h v hv).2⟩⟩

/-- An object takes up one level too, and its keys must be texts. -/
theorem isHoldable_obj_iff {n : Nat} {members : List (List Char × Json)} :
    (Json.obj members).isHoldable (n + 1) = true ↔
      ∀ m ∈ members, (Quoted.decode m.1).isSome = true ∧ m.2.isHoldable n = true := by
  simp only [isHoldable_iff, isReadable, areMembersReadable_iff, depth, Nat.add_le_add_iff_right,
    membersDepth_le_iff]
  constructor
  · intro h m hm
    exact ⟨(h.1 m hm).1, (h.1 m hm).2, h.2 m hm⟩
  · intro h
    exact ⟨fun m hm => ⟨(h m hm).1, (h m hm).2.1⟩, fun m hm => (h m hm).2.2⟩

theorem isHoldable_of_isText {n : Nat} {t : String} {v : Json} (h : IsText t v) :
    v.isHoldable n = true := by
  obtain ⟨raw, rfl, hraw⟩ := h
  simp [isHoldable, isReadable, depth, hraw]

/-- An index that is shown in digits is small enough to be held as a number. -/
theorem isHoldable_of_isNumber {n k : Nat} {v : Json} (hk : k < UInt64.size) (h : IsNumber k v) :
    v.isHoldable n = true := by
  obtain ⟨ds, rfl, -, hdigits, rfl⟩ := h
  simp [isHoldable, isReadable, depth, Numeral.exceedsDouble_of_value_lt hdigits hk]

theorem isHoldable_of_orNull {α : Type} {Shows : α → Json → Prop} {n : Nat}
    (h : ∀ a v, Shows a v → v.isHoldable n = true) {o : Option α} {v : Json}
    (hv : OrNull Shows o v) :
    v.isHoldable n = true := by
  cases o with
  | none =>
    obtain rfl : v = .null := hv
    simp [isHoldable, isReadable, depth]
  | some a => exact h a v hv

/-- A list takes up one level more than what shows its entries. -/
theorem isHoldable_of_isListOf {α : Type} {Shows : α → Json → Prop} {n : Nat}
    (h : ∀ a v, Shows a v → v.isHoldable n = true) {as : List α} {v : Json}
    (hv : IsListOf Shows as v) :
    v.isHoldable (n + 1) = true := by
  obtain ⟨items, rfl, hitems⟩ := hv
  rw [isHoldable_arr_iff]
  intro w hw
  obtain ⟨a, -, hshows⟩ := exists_related_of_forall₂ hitems.flip hw
  exact h a w hshows

end Json

end StyleZones

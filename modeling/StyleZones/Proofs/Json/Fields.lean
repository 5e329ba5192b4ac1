import Mathlib.Data.List.Nodup
import StyleZones.Json.Fields
import StyleZones.Proofs.Json.Layout
import StyleZones.Proofs.Loops

/-!
# Values and the documents of values

How values are written as documents and how documents are read as values are told apart in the
model: readers accept more than what is written. `Json.Faithful` says of a writer and a reader that
they belong together. What is written is plain, so that it survives being printed, and it is read
back as the value.

* `Json.Faithful.option` and `Json.Faithful.list` go from the values to values that may be missing
  and to lists.
* `Json.fields?_ofFields` and `Json.tagged?_ofFields`: fields are found again by their names, and a
  kind by its key.
* `Json.Plain.isReadable`: nothing in a plain document keeps it from being held.
-/

set_option autoImplicit false

namespace StyleZones.Json

/-- What is written for a value is a plain document, from which the value is read back. -/
structure Faithful {α : Type} (write : α → Json) (read : Json → Option α) : Prop where
  plain : ∀ a, Plain (write a)
  read_write : ∀ a, read (write a) = some a

/-! ## Scalars -/

/-- A text is written as a string that is read as the text again. -/
theorem faithful_text : Faithful ofText text? where
  plain s := .str s.toList
  read_write s := by simp [text?, ofText, Quoted.decode_encode]

theorem faithful_bool : Faithful .bool bool? where
  plain := .bool
  read_write _ := rfl

theorem natural?_ofNat (n : Nat) : natural? (ofNat n) = some n :=
  Numeral.natural?_digits n

/-- Numbers of a fixed width are written in digits, and what is written fits when it is read. -/
theorem faithful_uint32 : Faithful (fun n : UInt32 => ofNat n.toNat) uint32? where
  plain n := .num (Nat.lt_trans n.toNat_lt (by decide))
  read_write n := by simp [uint32?, natural?_ofNat, n.toNat_lt_size]

theorem faithful_uint64 : Faithful (fun n : UInt64 => ofNat n.toNat) uint64? where
  plain n := .num n.toNat_lt_size
  read_write n := by simp [uint64?, natural?_ofNat, n.toNat_lt_size]

/-- A missing value is told from all others, as long as none of them is written as `null`. -/
theorem Faithful.option {α : Type} {write : α → Json} {read : Json → Option α}
    (h : Faithful write read) (hnull : ∀ a, write a ≠ .null) :
    Faithful (ofOption write) (nullable? read) where
  plain
    | none => .null
    | some a => h.plain a
  read_write
    | none => rfl
    | some a => by
      have hsome : nullable? read (write a) = (read (write a)).map some := by
        cases hv : write a with
        | null => exact absurd hv (hnull a)
        | _ => rfl
      rw [ofOption, hsome, h.read_write]
      rfl

/-- Lists are faithful if their items are. -/
theorem Faithful.list {α : Type} {write : α → Json} {read : Json → Option α}
    (h : Faithful write read) :
    Faithful (fun as : List α => .arr (as.map write)) (list? read) where
  plain as := by
    apply Plain.arr
    intro v hv
    obtain ⟨a, -, rfl⟩ := List.mem_map.1 hv
    exact h.plain a
  read_write as := by
    rw [list?, List.mapM_map, Function.comp_def, mapM_eq_some (g := id) fun a _ => h.read_write a,
      List.map_id]

/-! ## Fields -/

/-- An object is plain if its values are, since its keys are encoded names. -/
theorem plain_ofFields {fields : List (String × Json)} (h : ∀ f ∈ fields, Plain f.2) :
    Plain (ofFields fields) := by
  refine .obj ?_ ?_
  · intro m hm
    obtain ⟨f, -, rfl⟩ := List.mem_map.1 hm
    exact ⟨f.1.toList, rfl⟩
  · intro m hm
    obtain ⟨f, hf, rfl⟩ := List.mem_map.1 hm
    exact h f hf

theorem key?_encode (name : String) (v : Json) : key? (Quoted.encode name.toList, v) = some name :=
  faithful_text.read_write name

/-- All keys of an object that is written can be decoded, and they are the names of the fields. -/
theorem members?_ofFields (fields : List (String × Json)) :
    members? (fields.map fun f => (Quoted.encode f.1.toList, f.2)) = some fields := by
  rw [members?, List.mapM_map, mapM_eq_some (g := id), List.map_id]
  intro f _
  simp [key?_encode]

/-- A member is found by its key if no other has the same. -/
theorem member?_of_mem {fields : List (String × Json)} (hnodup : (fields.map Prod.fst).Nodup)
    {f : String × Json} (hf : f ∈ fields) : member? fields f.1 = some (some f.2) := by
  have hfilter : fields.filter (·.1 = f.1) = [f] := by
    induction fields with
    | nil => cases hf
    | cons g fields ih =>
      rw [List.map_cons, List.nodup_cons] at hnodup
      rcases List.mem_cons.1 hf with rfl | hf
      · have hother : fields.filter (·.1 = f.1) = [] := by
          rw [List.filter_eq_nil_iff]
          intro g hg hsame
          exact hnodup.1 (of_decide_eq_true hsame ▸ List.mem_map_of_mem hg)
        simp [hother]
      · have hne : g.1 ≠ f.1 := fun hsame => hnodup.1 (hsame ▸ List.mem_map_of_mem hf)
        simp [hne, ih hnodup.2 hf]
  rw [member?, hfilter]

/-- The fields of an object are found by their names. -/
theorem fields?_ofFields {names : List String} {fields : List (String × Json)}
    (hnames : fields.map Prod.fst = names) (hnodup : names.Nodup) :
    (ofFields fields).fields? names = some (fields.map fun f => some f.2) := by
  subst hnames
  rw [ofFields, fields?, members?_ofFields]
  show (fields.map Prod.fst).mapM (member? fields) = _
  rw [List.mapM_map]
  exact mapM_eq_some fun f hf => member?_of_mem hnodup hf

/-- The kind of a value is split off its fields. -/
theorem tagged?_ofFields (kind : String) {fields : List (String × Json)}
    (h : "kind" ∉ fields.map Prod.fst) :
    (ofFields (("kind", ofText kind) :: fields)).tagged? = some (kind, ofFields fields) := by
  have hothers : ∀ f ∈ fields, f.1 ≠ "kind" := fun f hf hkind => h (hkind ▸ List.mem_map_of_mem hf)
  have htag : member? (("kind", ofText kind) :: fields) "kind" = some (some (ofText kind)) := by
    have hnone : fields.filter (·.1 = "kind") = [] := by
      simpa [List.filter_eq_nil_iff] using hothers
    simp [member?, hnone]
  have hrest :
      (fields.map fun f => (Quoted.encode f.1.toList, f.2)).filter
        (fun m => key? m != some "kind") =
      fields.map fun f => (Quoted.encode f.1.toList, f.2) := by
    rw [List.filter_eq_self]
    intro m hm
    obtain ⟨f, hf, rfl⟩ := List.mem_map.1 hm
    simpa [key?_encode] using hothers f hf
  have hmembers := members?_ofFields (("kind", ofText kind) :: fields)
  rw [ofFields, tagged?, hmembers]
  -- The first member is the kind, and the filter drops no other.
  simp only [Option.bind_eq_bind, Option.bind_some, htag, Field.required, faithful_text.read_write,
    List.map_cons]
  rw [List.filter_cons, key?_encode, hrest]
  rfl

/-! ## Holding a document -/

theorem areItemsReadable_iff (vs : List Json) :
    areItemsReadable vs = true ↔ ∀ v ∈ vs, v.isReadable = true := by
  induction vs with
  | nil => simp [areItemsReadable]
  | cons v vs ih => simp [areItemsReadable, ih]

theorem areMembersReadable_iff (ms : List (List Char × Json)) :
    areMembersReadable ms = true ↔
      ∀ m ∈ ms, (Quoted.decode m.1).isSome = true ∧ m.2.isReadable = true := by
  induction ms with
  | nil => simp [areMembersReadable]
  | cons m ms ih => simp [areMembersReadable, ih]

/-- A plain document has nothing in it that cannot be read. -/
theorem Plain.isReadable {v : Json} (h : Plain v) : v.isReadable = true := by
  induction h with
  | null => rfl
  | bool b => rfl
  | num h => simp [Json.isReadable, Numeral.exceedsDouble_digits h]
  | str t => simp [Json.isReadable, Quoted.decode_encode]
  | arr _ ih => exact (areItemsReadable_iff _).2 ih
  | obj keys _ ih =>
    refine (areMembersReadable_iff _).2 fun m hm => ⟨?_, ih m hm⟩
    obtain ⟨t, ht⟩ := keys m hm
    rw [ht, Quoted.decode_encode]
    rfl

theorem itemsDepth_le_iff {vs : List Json} {n : Nat} :
    itemsDepth vs ≤ n ↔ ∀ v ∈ vs, v.depth ≤ n := by
  induction vs with
  | nil => simp [itemsDepth]
  | cons v vs ih => simp [itemsDepth, ih]

theorem membersDepth_le_iff {ms : List (List Char × Json)} {n : Nat} :
    membersDepth ms ≤ n ↔ ∀ m ∈ ms, m.2.depth ≤ n := by
  induction ms with
  | nil => simp [membersDepth]
  | cons m ms ih => simp [membersDepth, ih]

/-- An object is one level deeper than its deepest value. -/
theorem depth_ofFields_le {fields : List (String × Json)} {n : Nat}
    (h : ∀ f ∈ fields, f.2.depth ≤ n) :
    (ofFields fields).depth ≤ n + 1 := by
  apply Nat.succ_le_succ
  apply membersDepth_le_iff.2
  intro m hm
  obtain ⟨f, hf, rfl⟩ := List.mem_map.1 hm
  exact h f hf

end StyleZones.Json

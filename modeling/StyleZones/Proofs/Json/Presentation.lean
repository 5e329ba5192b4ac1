import StyleZones.Proofs.Json.Denotation

/-!
# Presentations of a value with named fields

A value with named fields is presented by an object or by a list. In an object the members stand in
any order, a field whose value is its default may be left out, and members with other names may be
added; in a list the field values stand in declared order, and fields may be left off at its end.
`Json.Presents` says this of the members and items themselves, without filtering or looking up, and
`Json.Flaw` lists what a document can have wrong.

* `Json.presents_free_iff`: the presentations are the documents in which `Json.fields?` finds fields
  that are as they should be.
* `Json.presents_kind_iff`: to split off the kind and to present the rest is to present the kind as
  one more field.
* `Json.presents_holdable_iff`: a presentation can be held if what it adds can be held.
* `Json.flaw_iff`: a document has a flaw or is a presentation, and never both.
-/

set_option autoImplicit false

namespace StyleZones.Json

/-! ## Members -/

/-- The key of the member spells the name. -/
def Named (m : List Char × Json) (name : String) : Prop :=
  Quoted.decode m.1 = some name.toList

/-- What an object has under a name: exactly one member with that name, or none. -/
inductive Has (members : List (List Char × Json)) (name : String) : Field → Prop
  | once {before after : List (List Char × Json)} {m : List Char × Json}
      (split : members = before ++ m :: after)
      (named : Named m name) (others : ∀ m' ∈ before ++ after, ¬ Named m' name) :
      Has members name (some m.2)
  | absent (others : ∀ m ∈ members, ¬ Named m name) : Has members name none

theorem key?_eq_some_iff {m : List Char × Json} {name : String} :
    key? m = some name ↔ Named m name := by
  rw [key?, reads_text]
  simp [IsText, Named]

theorem named_of_mem_filter {members : List (List Char × Json)} {name : String}
    {m : List Char × Json} (h : m ∈ members.filter (key? · = some name)) : Named m name := by
  rw [← key?_eq_some_iff]
  simpa using (List.mem_filter.1 h).2

theorem filter_eq_nil_iff {members : List (List Char × Json)} {name : String} :
    members.filter (key? · = some name) = [] ↔ ∀ m ∈ members, ¬ Named m name := by
  rw [List.filter_eq_nil_iff]
  simp only [decide_eq_true_eq, key?_eq_some_iff]

/-- One member or none is what filtering by the name leaves. -/
theorem map_filter_eq_toList_iff {members : List (List Char × Json)} {name : String} {f : Field} :
    (members.filter (key? · = some name)).map Prod.snd = f.toList ↔ Has members name f := by
  constructor
  · intro h
    cases f with
    | none =>
      rw [Option.toList_none, List.map_eq_nil_iff, filter_eq_nil_iff] at h
      exact .absent h
    | some v =>
      -- The one member that passes the filter parts the members into those before and after it.
      rw [Option.toList_some, List.map_eq_singleton_iff] at h
      obtain ⟨m, hfilter, rfl⟩ := h
      obtain ⟨before, after, hsplit, hbefore, hnamed, hafter⟩ := List.filter_eq_cons_iff.1 hfilter
      simp only [decide_eq_true_eq, key?_eq_some_iff] at hbefore hnamed
      refine .once hsplit hnamed ?_
      intro m' hm'
      rcases List.mem_append.1 hm' with hm' | hm'
      · exact hbefore m' hm'
      · exact filter_eq_nil_iff.1 hafter m' hm'
  · intro h
    cases h with
    | absent others =>
      rw [filter_eq_nil_iff.2 others]
      rfl
    | @once before after m split named others =>
      subst split
      have hbefore := filter_eq_nil_iff.2 fun m' hm' => others m' (List.mem_append_left _ hm')
      have hafter := filter_eq_nil_iff.2 fun m' hm' => others m' (List.mem_append_right _ hm')
      rw [List.filter_append, hbefore, List.filter_cons,
        if_pos (decide_eq_true (key?_eq_some_iff.2 named)), hafter]
      rfl

/-- Members are passed on in their order, each with its key as a text. -/
theorem members?_eq_some_iff {members : List (List Char × Json)} {named : List (String × Json)} :
    members? members = some named ↔
      List.Forall₂ (fun m f => key? m = some f.1 ∧ m.2 = f.2) members named := by
  rw [members?, mapM_eq_some_iff]
  constructor
  all_goals
    intro h
    refine h.imp fun m f hf => ?_
  · simp only [Option.bind_eq_bind, Option.bind_eq_some_iff, Option.pure_def,
      Option.some.injEq] at hf
    obtain ⟨name, hname, rfl⟩ := hf
    exact ⟨hname, rfl⟩
  · simp [hf.1, hf.2]

/-- The members can be listed by name exactly if each key is a text. -/
theorem exists_members?_iff {members : List (List Char × Json)} :
    (∃ named, members? members = some named) ↔ ∀ m ∈ members, ∃ name, Named m name := by
  simp only [members?_eq_some_iff, exists_forall₂_iff]
  constructor
  · intro h m hm
    obtain ⟨f, hf, -⟩ := h m hm
    exact ⟨f.1, key?_eq_some_iff.1 hf⟩
  · intro h m hm
    obtain ⟨name, hname⟩ := h m hm
    exact ⟨(name, m.2), key?_eq_some_iff.2 hname, rfl⟩

/-- A field is found if at most one member has its name. -/
theorem member?_eq_some_iff {members : List (List Char × Json)} {named : List (String × Json)}
    (h : members? members = some named) {name : String} {f : Field} :
    member? named name = some f ↔ Has members name f := by
  have hsame : (named.filter (·.1 = name)).map Prod.snd =
      (members.filter (key? · = some name)).map Prod.snd := by
    have hall := members?_eq_some_iff.1 h
    clear h
    induction hall with
    | nil => rfl
    | @cons m g members named hm _ ih =>
      by_cases hname : g.1 = name
      · simp [hname, hm.1, hm.2, ih]
      · simp [hname, hm.1, ih]
  rw [← map_filter_eq_toList_iff, ← hsame, member?]
  generalize named.filter (·.1 = name) = found
  rcases found with _ | ⟨g, _ | ⟨g', rest⟩⟩
  all_goals cases f <;> simp

/-! ## Presentations -/

/-- What is asked of one field. -/
structure Slot where
  /-- The name of the field. -/
  name : String
  /-- The documents that show the value of the field. -/
  Shows : Json → Prop
  /-- The field may be left out. -/
  Omissible : Prop

/-- What is found of the field is as it should be. -/
def Slot.Allows (s : Slot) : Field → Prop
  | some v => s.Shows v
  | none => s.Omissible

/-- The document presents a value with the given fields. Where it is an object, what it has under
other names satisfies `other`. -/
inductive Presents (other : Json → Prop) (slots : List Slot) : Json → Prop
  | object {members : List (List Char × Json)} (keys : ∀ m ∈ members, ∃ name, Named m name)
      (fields : ∀ s ∈ slots, ∃ f, Has members s.name f ∧ s.Allows f)
      (others : ∀ m ∈ members, (∀ s ∈ slots, ¬ Named m s.name) → other m.2) :
      Presents other slots (.obj members)
  | list {shown left : List Slot} {items : List Json} (split : slots = shown ++ left)
      (each : List.Forall₂ Slot.Shows shown items) (rest : ∀ s ∈ left, s.Omissible) :
      Presents other slots (.arr items)

/-- Anything may be added. -/
def free : Json → Prop := fun _ => True

variable {other : Json → Prop} {slots : List Slot} {v : Json}

theorem Presents.mono {other' : Json → Prop} (h : Presents other slots v)
    (himp : ∀ w, other w → other' w) :
    Presents other' slots v := by
  cases h with
  | object keys fields others =>
    exact .object keys fields fun m hm hname => himp _ (others m hm hname)
  | list split each rest => exact .list split each rest

/-- The fields of an object are found one by one. -/
theorem fields?_obj_eq_some_iff {members : List (List Char × Json)} {names : List String}
    {fs : List Field} :
    (Json.obj members).fields? names = some fs ↔
      (∀ m ∈ members, ∃ name, Named m name) ∧ List.Forall₂ (Has members) names fs := by
  rw [← exists_members?_iff]
  simp only [fields?, Option.bind_eq_bind, Option.bind_eq_some_iff, mapM_eq_some_iff]
  constructor
  · rintro ⟨named, hnamed, hfields⟩
    exact ⟨⟨named, hnamed⟩, hfields.imp fun name f => (member?_eq_some_iff hnamed).1⟩
  · rintro ⟨⟨named, hnamed⟩, hfields⟩
    exact ⟨named, hnamed, hfields.imp fun name f => (member?_eq_some_iff hnamed).2⟩

theorem length_of_fields? {names : List String} {fs : List Field} (h : v.fields? names = some fs) :
    fs.length = names.length := by
  cases v with
  | obj members => exact (fields?_obj_eq_some_iff.1 h).2.length_eq.symm
  | arr items =>
    rw [fields?] at h
    split_ifs at h with hlength
    obtain rfl := Option.some.inj h
    simp [hlength]
  | _ => cases h

theorem forall₂_replicate_none_iff :
    List.Forall₂ Slot.Allows slots (List.replicate slots.length none) ↔
      ∀ s ∈ slots, s.Omissible := by
  induction slots with
  | nil => simp
  | cons s slots ih =>
    rw [List.length_cons, List.replicate_succ, List.forall₂_cons, ih, List.forall_mem_cons]
    rfl

/-- The items of a list are fields, and the fields after them are left out. -/
theorem allows_items_iff {items : List Json} (hlength : items.length ≤ slots.length) :
    List.Forall₂ Slot.Allows slots
      (items.map some ++ List.replicate (slots.length - items.length) none) ↔
      ∃ shown left, slots = shown ++ left ∧ List.Forall₂ Slot.Shows shown items ∧
        ∀ s ∈ left, s.Omissible := by
  -- The items run along the fields, and where they end the remaining fields are left off.
  induction items generalizing slots with
  | nil =>
    simp only [List.map_nil, List.nil_append, List.length_nil, Nat.sub_zero,
      List.forall₂_nil_right_iff]
    constructor
    · intro h
      exact ⟨[], slots, rfl, rfl, forall₂_replicate_none_iff.1 h⟩
    · rintro ⟨_, left, rfl, rfl, hleft⟩
      exact forall₂_replicate_none_iff.2 hleft
  | cons v items ih =>
    cases slots with
    | nil => simp at hlength
    | cons s slots =>
      rw [List.length_cons, List.length_cons, Nat.add_le_add_iff_right] at hlength
      rw [List.map_cons, List.cons_append, List.length_cons, List.length_cons,
        Nat.add_sub_add_right, List.forall₂_cons, ih hlength]
      constructor
      · rintro ⟨hv, shown, left, rfl, hshown, hleft⟩
        exact ⟨s :: shown, left, rfl, .cons hv hshown, hleft⟩
      · rintro ⟨shown, left, hsplit, hshown, hleft⟩
        cases hshown with
        | @cons s' _ shown _ hv hshown =>
          obtain ⟨rfl, rfl⟩ := List.cons.inj hsplit
          exact ⟨hv, shown, left, rfl, hshown, hleft⟩

/-- Presentations are what the fields are found in. -/
theorem presents_free_iff :
    Presents free slots v ↔
      ∃ fs, v.fields? (slots.map Slot.name) = some fs ∧ List.Forall₂ Slot.Allows slots fs := by
  cases v with
  | obj members =>
    simp only [fields?_obj_eq_some_iff, List.forall₂_map_left_iff]
    constructor
    · intro h
      cases h with
      | object keys fields _ =>
        -- The fields are given one at a time and have to be collected into the list that is found.
        obtain ⟨fs, hfs⟩ := exists_forall₂_iff.2 fields
        exact ⟨fs, ⟨keys, hfs.imp fun s f h => h.1⟩, hfs.imp fun s f h => h.2⟩
    · rintro ⟨fs, ⟨keys, hhas⟩, hallows⟩
      refine .object keys (exists_forall₂_iff.1 ⟨fs, ?_⟩) fun _ _ _ => trivial
      exact List.Forall₂.mp (fun s f hf hs => ⟨hf, hs⟩) hhas hallows
  | arr items =>
    simp only [fields?, List.length_map]
    constructor
    · intro h
      cases h with
      | list split each rest =>
        have hlength : items.length ≤ slots.length := by
          rw [split, List.length_append, each.length_eq]
          exact Nat.le_add_right _ _
        rw [if_pos hlength]
        exact ⟨_, rfl, (allows_items_iff hlength).2 ⟨_, _, split, each, rest⟩⟩
    · rintro ⟨fs, hfs, hallows⟩
      split_ifs at hfs with hlength
      obtain rfl := Option.some.inj hfs
      obtain ⟨shown, left, split, each, rest⟩ := (allows_items_iff hlength).1 hallows
      exact .list split each rest
  | _ =>
    constructor
    · rintro ⟨⟩
    · rintro ⟨fs, hfs, -⟩
      cases hfs

/-- A reader that looks up fields by their names and goes on with what it finds. -/
theorem bind_fields?_eq_some_iff {β : Type} {names : List String} {next : List Field → Option β}
    {b : β} {P : Prop} (hnames : P → slots.map Slot.name = names)
    (hnext : ∀ fs, fs.length = names.length →
      (next fs = some b ↔ P ∧ List.Forall₂ Slot.Allows slots fs)) :
    (v.fields? names).bind next = some b ↔ P ∧ Presents free slots v := by
  simp only [Option.bind_eq_some_iff, presents_free_iff]
  constructor
  · rintro ⟨fs, hfs, hb⟩
    obtain ⟨hP, hslots⟩ := (hnext fs (length_of_fields? hfs)).1 hb
    exact ⟨hP, fs, hnames hP ▸ hfs, hslots⟩
  · rintro ⟨hP, fs, hfs, hslots⟩
    rw [hnames hP] at hfs
    exact ⟨fs, hfs, (hnext fs (length_of_fields? hfs)).2 ⟨hP, hslots⟩⟩

/-- What an object has under none of the names satisfies `other`. -/
def Adds (other : Json → Prop) (names : List String) (v : Json) : Prop :=
  ∀ members, v = .obj members → ∀ m ∈ members, (∀ name ∈ names, ¬ Named m name) → other m.2

/-- What is added can be looked at apart from what is presented. -/
theorem presents_iff_free :
    Presents other slots v ↔ Presents free slots v ∧ Adds other (slots.map Slot.name) v := by
  constructor
  · intro h
    refine ⟨h.mono fun _ _ => trivial, ?_⟩
    rintro members rfl m hm hforeign
    cases h with
    | object _ _ others => exact others m hm fun s hs => hforeign s.name (List.mem_map_of_mem hs)
  · rintro ⟨h, hadds⟩
    cases h with
    | object keys fields _ =>
      refine .object keys fields fun m hm hforeign => hadds _ rfl m hm fun name hname => ?_
      obtain ⟨s, hs, rfl⟩ := List.mem_map.1 hname
      exact hforeign s hs
    | list split each rest => exact .list split each rest

/-! ## The values of a field -/

/-- How the values of one field are shown. -/
structure FieldFormat (α : Type) where
  /-- The name of the field. -/
  name : String
  /-- The documents that show a value. -/
  Shows : α → Json → Prop
  /-- The value that a missing field stands for. -/
  Omits : α → Prop

namespace FieldFormat

variable {α : Type} {read : Json → Option α} {Shows : α → Json → Prop}

/-- A field that must be there. -/
def required (name : String) (Shows : α → Json → Prop) : FieldFormat α where
  name := name
  Shows := Shows
  Omits _ := False

/-- A field that has a default. -/
def optional (name : String) (Shows : α → Json → Prop) (default : α) : FieldFormat α where
  name := name
  Shows := Shows
  Omits a := a = default

/-- The field with a given value. -/
def slot (format : FieldFormat α) (a : α) : Slot where
  name := format.name
  Shows := format.Shows a
  Omissible := format.Omits a

/-- The field with a value that is left open. -/
def any (format : FieldFormat α) : Slot where
  name := format.name
  Shows v := ∃ a, format.Shows a v
  Omissible := ∃ a, format.Omits a

theorem any_allows_iff {format : FieldFormat α} {f : Field} :
    format.any.Allows f ↔ ∃ a, (format.slot a).Allows f := by
  cases f <;> rfl

/-- A required field allows what its reader finds, and must be there. -/
theorem required_allows_iff (h : Reads read Shows) {name : String} {a : α} {f : Field} :
    ((required name Shows).slot a).Allows f ↔ Field.required read f = some a := by
  cases f with
  | none => simp [slot, required, Slot.Allows, Field.required]
  | some v => exact (h v a).symm

/-- A field with a default allows what its reader finds, or its default if it is missing. -/
theorem optional_allows_iff (h : Reads read Shows) {name : String} {default a : α} {f : Field} :
    ((optional name Shows default).slot a).Allows f ↔ Field.optional read default f = some a := by
  cases f with
  | none => simp [slot, optional, Slot.Allows, Field.optional, eq_comm]
  | some v => exact (h v a).symm

end FieldFormat

/-- The shape leaves open what the fields of the values fix. -/
structure Opens {α : Type} (shape : List Slot) (slotsOf : α → List Slot) : Prop where
  names : ∀ a, (slotsOf a).map Slot.name = shape.map Slot.name
  allows : ∀ fs, List.Forall₂ Slot.Allows shape fs ↔ ∃ a, List.Forall₂ Slot.Allows (slotsOf a) fs

namespace Opens

variable {α β : Type} {shape : List Slot} {slotsOf : α → List Slot}

theorem single (format : FieldFormat β) : Opens [format.any] fun b => [format.slot b] where
  names _ := rfl
  allows fs := by
    rcases fs with _ | ⟨f, _ | ⟨f', fs⟩⟩
    · simp
    · simp [FieldFormat.any_allows_iff]
    · simp

theorem cons (format : FieldFormat β) (h : Opens shape slotsOf) :
    Opens (format.any :: shape) fun p : β × α => format.slot p.1 :: slotsOf p.2 where
  names p := congrArg (format.name :: ·) (h.names p.2)
  allows fs := by
    cases fs with
    | nil => simp
    | cons f fs => simp [FieldFormat.any_allows_iff, h.allows]

theorem fixed (s : Slot) (h : Opens shape slotsOf) :
    Opens (s :: shape) fun a => s :: slotsOf a where
  names a := congrArg (s.name :: ·) (h.names a)
  allows fs := by
    cases fs with
    | nil => simp
    | cons f fs => simp [h.allows]

/-- What presents the shape presents one of the values. -/
theorem presents_iff (h : Opens shape slotsOf) :
    Presents other shape v ↔ ∃ a, Presents other (slotsOf a) v := by
  simp only [@presents_iff_free other, presents_free_iff, h.names, h.allows]
  constructor
  · rintro ⟨⟨fs, hfs, a, ha⟩, hadds⟩
    exact ⟨a, ⟨fs, hfs, ha⟩, hadds⟩
  · rintro ⟨a, ⟨fs, hfs, ha⟩, hadds⟩
    exact ⟨⟨fs, hfs, a, ha⟩, hadds⟩

end Opens

/-! ## The kind -/

/-- The field that carries the kind of a value. -/
def kindSlot (kind : String) : Slot where
  name := "kind"
  Shows := IsText kind
  Omissible := False

/-- Under any other name, an object has the same with and without its kind. -/
theorem has_filter_iff {members : List (List Char × Json)} {name : String} (hname : name ≠ "kind")
    {f : Field} :
    Has (members.filter fun m => key? m != some "kind") name f ↔ Has members name f := by
  rw [← map_filter_eq_toList_iff, ← map_filter_eq_toList_iff, List.filter_filter]
  have hsame :
      ∀ m ∈ members, (decide (key? m = some name) && (key? m != some "kind")) =
        decide (key? m = some name) := by
    intro m _
    by_cases hm : key? m = some name
    · simp [hm, hname]
    · simp [hm]
  rw [List.filter_congr hsame]

/-- The kind is found as a field, and so are the others once it is split off. -/
theorem fields?_kind_iff {names : List String} (hnames : "kind" ∉ names) {kind : String}
    {fs : List Field} :
    (∃ rest, v.tagged? = some (kind, rest) ∧ rest.fields? names = some fs) ↔
      ∃ f, v.fields? ("kind" :: names) = some (f :: fs) ∧ (kindSlot kind).Allows f := by
  cases v with
  | obj members =>
    -- The kind is taken out of the members, which no field but itself can notice.
    have hothers :
        ∀ {fs}, List.Forall₂ (Has (members.filter fun m => key? m != some "kind")) names fs ↔
        List.Forall₂ (Has members) names fs := by
      intro fs
      rw [List.forall₂_iff_zip, List.forall₂_iff_zip]
      refine and_congr_right fun _ => forall_congr' fun name => forall_congr' fun f => ?_
      refine imp_congr_right fun hmem => has_filter_iff ?_
      rintro rfl
      exact hnames (List.of_mem_zip hmem).1
    simp only [tagged?, fields?_obj_eq_some_iff, List.forall₂_cons, Option.bind_eq_bind,
      Option.bind_eq_some_iff, Option.pure_def, Option.some.injEq, Prod.mk.injEq]
    constructor
    · rintro ⟨rest, ⟨named, hnamed, f, hf, k, hk, rfl, rfl⟩, hrest⟩
      rw [fields?_obj_eq_some_iff, hothers] at hrest
      refine ⟨f, ⟨exists_members?_iff.1 ⟨named, hnamed⟩, (member?_eq_some_iff hnamed).1 hf,
        hrest.2⟩, ?_⟩
      cases f with
      | none => cases hk
      | some w => exact (reads_text w k).1 hk
    · rintro ⟨f, ⟨keys, hf, hrest⟩, hkind⟩
      obtain ⟨named, hnamed⟩ := exists_members?_iff.2 keys
      refine ⟨_, ⟨named, hnamed, f, (member?_eq_some_iff hnamed).2 hf, kind, ?_, rfl, rfl⟩, ?_⟩
      · cases f with
        | none => cases hkind
        | some w => exact (reads_text w kind).2 hkind
      · rw [fields?_obj_eq_some_iff, hothers]
        exact ⟨fun m hm => keys m (List.mem_of_mem_filter hm), hrest⟩
  | arr items =>
    cases items with
    | nil =>
      -- An empty list has no kind, and a field that is left off shows none.
      constructor
      · rintro ⟨rest, hrest, -⟩
        cases hrest
      · rintro ⟨f, hf, hkind⟩
        obtain ⟨rfl, -⟩ := List.cons.inj (Option.some.inj hf)
        cases hkind
    | cons w items =>
      simp only [tagged?, fields?, List.length_cons, Nat.add_le_add_iff_right,
        Nat.add_sub_add_right, List.map_cons, List.cons_append, Option.bind_eq_bind,
        Option.bind_eq_some_iff, Option.pure_def, Option.some.injEq, Prod.mk.injEq]
      constructor
      · rintro ⟨rest, ⟨k, hk, rfl, rfl⟩, hrest⟩
        dsimp only at hrest
        split_ifs at hrest with hlength
        obtain rfl := Option.some.inj hrest
        exact ⟨some w, by rw [if_pos hlength], (reads_text w k).1 hk⟩
      · rintro ⟨f, hf, hkind⟩
        split_ifs at hf with hlength
        obtain ⟨rfl, rfl⟩ := List.cons.inj (Option.some.inj hf)
        refine ⟨.arr items, ⟨kind, (reads_text w kind).2 hkind, rfl, rfl⟩, ?_⟩
        exact if_pos hlength
  | _ => simp [tagged?, fields?]

/-- A kind that is read first is one field more that is presented. -/
theorem presents_kind_iff {kind : String} (hslots : "kind" ∉ slots.map Slot.name) :
    (∃ rest, v.tagged? = some (kind, rest) ∧ Presents free slots rest) ↔
      Presents free (kindSlot kind :: slots) v := by
  simp only [presents_free_iff, List.map_cons, List.forall₂_cons_left_iff]
  constructor
  · rintro ⟨rest, htag, fs, hfs, hallows⟩
    obtain ⟨f, hf, hkind⟩ := (fields?_kind_iff hslots).1 ⟨rest, htag, hfs⟩
    exact ⟨f :: fs, hf, f, fs, hkind, hallows, rfl⟩
  · rintro ⟨_, hfields, f, fs, hkind, hallows, rfl⟩
    obtain ⟨rest, htag, hfs⟩ := (fields?_kind_iff hslots).2 ⟨f, hfields, hkind⟩
    exact ⟨rest, htag, fs, hfs, hallows⟩

/-- A reader that splits off the kind and goes on with it and the rest. -/
theorem bind_tagged?_eq_some_iff {β : Type} {next : String × Json → Option β} {kind : String}
    {b : β} (hslots : "kind" ∉ slots.map Slot.name)
    (hnext : ∀ k rest, next (k, rest) = some b ↔ k = kind ∧ Presents free slots rest) :
    v.tagged?.bind next = some b ↔ Presents free (kindSlot kind :: slots) v := by
  rw [← presents_kind_iff hslots]
  simp only [Option.bind_eq_some_iff, Prod.exists, hnext]
  constructor
  · rintro ⟨k, rest, htag, rfl, hrest⟩
    exact ⟨rest, htag, hrest⟩
  · rintro ⟨rest, htag, hrest⟩
    exact ⟨kind, rest, htag, rfl, hrest⟩

/-! ## Presentations that can be held -/

/-- A member with the name of a field is the one that shows it. -/
theorem Has.shows {members : List (List Char × Json)} {s : Slot} {f : Field}
    (hf : Has members s.name f) (hs : s.Allows f) {m : List Char × Json} (hm : m ∈ members)
    (hname : Named m s.name) : s.Shows m.2 := by
  cases hf with
  | absent others => exact absurd hname (others m hm)
  | @once before after m' split named others =>
    subst split
    rcases List.mem_append.1 hm with hbefore | hrest
    · exact absurd hname (others m (List.mem_append_left _ hbefore))
    rcases List.mem_cons.1 hrest with rfl | hafter
    · exact hs
    · exact absurd hname (others m (List.mem_append_right _ hafter))

/-- If the fields themselves can be held, only what an object has under other names can keep it from
being held. -/
theorem presents_holdable_iff {n : Nat}
    (hslots : ∀ s ∈ slots, ∀ w, s.Shows w → w.isHoldable n = true) :
    Presents (fun w => w.isHoldable n = true) slots v ↔
      Presents free slots v ∧ v.isHoldable (n + 1) = true := by
  constructor
  · intro h
    refine ⟨h.mono fun _ _ => trivial, ?_⟩
    cases h with
    | object keys fields others =>
      rw [isHoldable_obj_iff]
      intro m hm
      obtain ⟨name, hname⟩ := keys m hm
      refine ⟨Option.isSome_of_mem hname, ?_⟩
      -- A member is a field, whose value can be held, or an addition, of which that is asked.
      by_cases hknown : ∃ s ∈ slots, Named m s.name
      · obtain ⟨s, hs, hm'⟩ := hknown
        obtain ⟨f, hf, hallows⟩ := fields s hs
        exact hslots s hs m.2 (hf.shows hallows hm hm')
      · exact others m hm fun s hs hm' => hknown ⟨s, hs, hm'⟩
    | @list shown left items split each rest =>
      rw [isHoldable_arr_iff]
      intro w hw
      obtain ⟨s, hs, hshows⟩ := exists_related_of_forall₂ each.flip hw
      exact hslots s (split ▸ List.mem_append_left _ hs) w hshows
  · rintro ⟨h, hhold⟩
    cases h with
    | object keys fields _ =>
      exact .object keys fields fun m hm _ => (isHoldable_obj_iff.1 hhold m hm).2
    | list split each rest => exact .list split each rest

/-! ## Flaws -/

/-- What is wrong with a document where a value with the given fields is asked for. -/
inductive Flaw (other : Json → Prop) (slots : List Slot) : Json → Prop
  /-- It is neither an object nor a list. -/
  | scalar {v : Json} (object : ∀ members, v ≠ .obj members) (list : ∀ items, v ≠ .arr items) :
      Flaw other slots v
  /-- A key denotes no text. -/
  | key {members : List (List Char × Json)} {m : List Char × Json} (mem : m ∈ members)
      (nameless : ∀ name, ¬ Named m name) : Flaw other slots (.obj members)
  /-- Two members have the name of one field. -/
  | repeated {members : List (List Char × Json)} {m m' : List Char × Json} {s : Slot}
      (slot : s ∈ slots)
      (two : [m, m'].Sublist members) (first : Named m s.name) (second : Named m' s.name) :
      Flaw other slots (.obj members)
  /-- No member has the name of a field that may not be left out. -/
  | missing {members : List (List Char × Json)} {s : Slot} (slot : s ∈ slots)
      (absent : ∀ m ∈ members, ¬ Named m s.name) (needed : ¬ s.Omissible) :
      Flaw other slots (.obj members)
  /-- A member with the name of a field does not show a value of it. -/
  | mistyped {members : List (List Char × Json)} {m : List Char × Json} {s : Slot}
      (slot : s ∈ slots)
      (mem : m ∈ members) (named : Named m s.name) (wrong : ¬ s.Shows m.2) :
      Flaw other slots (.obj members)
  /-- What stands under another name is not allowed there. -/
  | unknown {members : List (List Char × Json)} {m : List Char × Json} (mem : m ∈ members)
      (foreign : ∀ s ∈ slots, ¬ Named m s.name) (wrong : ¬ other m.2) :
      Flaw other slots (.obj members)
  /-- A list has more items than there are fields. -/
  | tooLong {items : List Json} (length : slots.length < items.length) :
      Flaw other slots (.arr items)
  /-- A list ends before a field that may not be left out. -/
  | cutShort {items : List Json} {s : Slot} (slot : s ∈ slots.drop items.length)
      (needed : ¬ s.Omissible) :
      Flaw other slots (.arr items)
  /-- An item does not show a value of the field at its place. -/
  | misplaced {items : List Json} {s : Slot} {w : Json} (place : (s, w) ∈ slots.zip items)
      (wrong : ¬ s.Shows w) :
      Flaw other slots (.arr items)

theorem Has.not_two {members : List (List Char × Json)} {name : String} {f : Field}
    (hf : Has members name f) {m m' : List Char × Json} (htwo : [m, m'].Sublist members)
    (hm : Named m name) : ¬ Named m' name := by
  intro hm'
  have hlength := ((htwo.filter (key? · = some name)).map Prod.snd).length_le
  rw [map_filter_eq_toList_iff.2 hf] at hlength
  simp only [key?_eq_some_iff.2 hm, key?_eq_some_iff.2 hm', decide_true, List.filter_cons_of_pos,
    List.filter_nil] at hlength
  cases f <;> simp at hlength

theorem Presents.not_flaw (h : Presents other slots v) : ¬ Flaw other slots v := by
  intro hflaw
  cases h with
  | object keys fields others =>
    cases hflaw with
    | scalar object _ => exact object _ rfl
    | key mem nameless =>
      obtain ⟨name, hname⟩ := keys _ mem
      exact nameless name hname
    | repeated slot two first second =>
      obtain ⟨f, hf, -⟩ := fields _ slot
      exact hf.not_two two first second
    | missing slot absent needed =>
      obtain ⟨f, hf, hallows⟩ := fields _ slot
      cases hf with
      | once split named _ =>
        exact absent _ (split ▸ List.mem_append_right _ List.mem_cons_self) named
      | absent _ => exact needed hallows
    | mistyped slot mem named wrong =>
      obtain ⟨f, hf, hallows⟩ := fields _ slot
      exact wrong (hf.shows hallows mem named)
    | unknown mem foreign wrong => exact wrong (others _ mem foreign)
  | @list shown left items split each rest =>
    -- There are as many items as fields that are shown, and the fields after these are left off.
    have hlength := each.length_eq
    subst split
    cases hflaw with
    | scalar _ list => exact list _ rfl
    | tooLong length =>
      rw [List.length_append] at length
      omega
    | cutShort slot needed =>
      rw [← hlength, List.drop_left] at slot
      exact needed (rest _ slot)
    | misplaced place wrong =>
      rw [← List.append_nil items, List.zip_append hlength, List.zip_nil_right,
        List.append_nil] at place
      exact wrong (List.forall₂_zip each place)

/-- A document without a flaw has everything that a presentation needs. -/
theorem presents_of_not_flaw (h : ¬ Flaw other slots v) : Presents other slots v := by
  cases v with
  | obj members =>
    refine .object ?_ ?_ ?_
    · intro m hm
      by_contra hnone
      exact h (.key hm (not_exists.1 hnone))
    · intro s hs
      -- Either no member has the name, or one has it, or there are two to point to.
      rcases hfound : members.filter (key? · = some s.name) with _ | ⟨m, _ | ⟨m', rest⟩⟩
      · have habsent : Has members s.name none := map_filter_eq_toList_iff.1 (by rw [hfound]; rfl)
        refine ⟨none, habsent, ?_⟩
        by_contra hneeded
        cases habsent with
        | absent others => exact h (.missing hs others hneeded)
      · have hone : Has members s.name (some m.2) :=
          map_filter_eq_toList_iff.1 (by rw [hfound]; rfl)
        have hmem : m ∈ members.filter (key? · = some s.name) := hfound ▸ List.mem_cons_self
        refine ⟨some m.2, hone, ?_⟩
        by_contra hwrong
        exact h (.mistyped hs (List.mem_of_mem_filter hmem) (named_of_mem_filter hmem) hwrong)
      · have hnamed : ∀ m'' ∈ m :: m' :: rest, Named m'' s.name := by
          intro m'' hm''
          exact named_of_mem_filter (hfound ▸ hm'')
        have htwo : [m, m'].Sublist members := by
          have hsub : (m :: m' :: rest).Sublist members := hfound ▸ List.filter_sublist
          refine List.Sublist.trans ?_ hsub
          simp
        exact absurd (.repeated hs htwo (hnamed m (by simp)) (hnamed m' (by simp))) h
    · intro m hm hforeign
      by_contra hwrong
      exact h (.unknown hm hforeign hwrong)
  | arr items =>
    have hlength : items.length ≤ slots.length := by
      by_contra hlong
      exact h (.tooLong (Nat.lt_of_not_le hlong))
    -- The items stand for the first fields, as many as there are.
    refine .list (List.take_append_drop items.length slots).symm ?_ ?_
    · rw [List.forall₂_iff_zip]
      refine ⟨by simp [hlength], fun {s w} hmem => ?_⟩
      by_contra hwrong
      refine h (.misplaced ?_ hwrong)
      have hzip : slots.zip items = (slots.take items.length).zip items := by
        conv_lhs => rw [← List.append_nil items, ← List.take_append_drop items.length slots]
        rw [List.zip_append (by simp [hlength]), List.zip_nil_right, List.append_nil]
      exact hzip ▸ hmem
    · intro s hs
      by_contra hneeded
      exact h (.cutShort hs hneeded)
  | _ =>
    refine absurd (Flaw.scalar ?_ ?_) h
    all_goals
      rintro _ ⟨⟩

/-- The list of flaws is complete: a document without any presents a value. -/
theorem flaw_iff : Flaw other slots v ↔ ¬ Presents other slots v :=
  ⟨fun hflaw h => h.not_flaw hflaw, fun h => by_contra fun hflaw => h (presents_of_not_flaw hflaw)⟩

end StyleZones.Json

import StyleZones.Proofs.Snapshot.Image
import StyleZones.Proofs.Unit.Lineage

/-!
# Qualified names

The qualified name of a declaration is put together while its scopes are visited from the inside
out. Read from the outside in it is simple: the labels of the scopes around the declaration, one
after another, and then its own name. The unit itself and blocks have no label, so a declaration in
a block is called what it would be called outside of it.

* `WellFormed.qualifiedName_eq` is the qualified name along the lineage.
* `WellFormed.qualifiedName_moveTo`: moving a declaration out of blocks changes no qualified name.
* `SourceUnit.qualifiedName_follows_lineage` joins both with the search for a declaration by its
  name.
-/

set_option autoImplicit false

namespace StyleZones

/-! ## Labels -/

namespace Entity

/-- What an entity without a name is called in the names of what it holds. -/
def anonymousLabel : Entity → String
  | .nameSpace _ => "(anonymous namespace)"
  | .record _ _ => "(anonymous struct)"
  | .enumeration _ _ => "(anonymous enum)"
  | .function _ | .unit | .block => ""

/-- The label of a scope: its name, if it has one that is not empty. The unit itself and blocks have
none. -/
def scopeLabel? (e : Entity) : Option String :=
  if e = .unit ∨ e = .block then none
  else if e.name.getD "" = "" then some e.anonymousLabel
  else e.name

theorem label?_eq_scopeLabel? : label? = scopeLabel? := by
  -- An empty name is filtered out on one side and compared with the empty text on the other.
  have hname : ∀ (name : Option String) (stand : String),
      some ((name.filter (· ≠ "")).getD stand) =
        if name.getD "" = "" then some stand else name := by
    intro name stand
    cases name with
    | none => rfl
    | some name => by_cases h : name = "" <;> simp [Option.filter, h]
  funext e
  cases e with
  | unit => rfl
  | block => rfl
  | nameSpace name | record name | enumeration name | function name =>
    simp only [label?, hname, scopeLabel?, reduceCtorEq, or_self, if_false]
    rfl

end Entity

namespace SourceUnit

variable (u : SourceUnit)

/-- The labels along the lineage of the declaration and then its own name, joined, are the name. -/
def NamedBy (d : Nat) (name : String) : Prop :=
  ∃ path, u.Lineage d path ∧
    "::".intercalate (u.read Entity.scopeLabel? path ++ [u.simpleName d]) = name

/-- One declaration is a block and stands in the other. -/
def LeavesBlock (x y : Nat) : Prop :=
  u.entity? x = some .block ∧ u.StandsIn x y

/-- The second declaration is the nearest one outside of the blocks that the first one lies in, the
first one counted among them if it is a block. -/
def OutOfBlocks (b a : Nat) : Prop :=
  Relation.ReflTransGen u.LeavesBlock b a ∧ u.entity? a ≠ some .block

variable {u}

theorem LeavesBlock.passes {x y : Nat} (h : u.LeavesBlock x y) : u.Passes Entity.scopeLabel? x y :=
  ⟨read_singleton Entity.scopeLabel? h.1, h.2⟩

namespace WellFormed

variable (hu : u.WellFormed)
include hu

/-! ## Names along lineages -/

/-- The walk outwards puts the labels of the scopes in front, the outermost first. -/
theorem labelsAround_eq_read {d : Nat} (hd : d < u.decls.size) (inner : List String) :
    u.labelsAround d inner = u.read Entity.scopeLabel? (u.ancestors d) ++ inner := by
  rw [Strict.labelsAround_eq hu, ← Entity.label?_eq_scopeLabel?]
  cases hq : u.parent? d with
  | none =>
    rw [ancestors_of_root hq]
    rfl
  | some q =>
    have hscope : q < u.decls.size := Nat.lt_trans (hu.parent_lt hq) hd
    rw [hu.ancestors_of_standsIn hq]
    exact (Strict.climbs_labelsFrom hu).eq_read hu rfl hscope inner

theorem qualifiedName_eq {d : Nat} (hd : d < u.decls.size) :
    u.qualifiedName d =
      "::".intercalate (u.read Entity.scopeLabel? (u.ancestors d) ++ [u.simpleName d]) := by
  rw [qualifiedName, hu.labelsAround_eq_read hd]
  rfl

theorem namedBy_iff {d : Nat} (hd : d < u.decls.size) (name : String) :
    u.NamedBy d name ↔ name = u.qualifiedName d := by
  rw [hu.qualifiedName_eq hd]
  constructor
  · rintro ⟨path, hpath, rfl⟩
    rw [(hu.lineage_iff d path).1 hpath]
  · rintro rfl
    exact ⟨u.ancestors d, hu.lineage_ancestors d, rfl⟩

/-! ## Blocks -/

/-- Around every block there is something else than a block. -/
theorem exists_outOfBlocks {b : Nat} (hb : b < u.decls.size) : ∃ a, u.OutOfBlocks b a := by
  induction b using Nat.strongRecOn with
  | ind b ih =>
    by_cases hblock : u.entity? b = some .block
    · rcases hu.scope_cases hb with ⟨-, hunit, -⟩ | ⟨-, q, -, -, hq, hlt⟩
      · rw [hunit] at hblock
        cases hblock
      · obtain ⟨a, hpath, hend⟩ := ih q hlt (Nat.lt_trans hlt hb)
        exact ⟨a, .head ⟨hblock, hq⟩ hpath, hend⟩
    · exact ⟨b, .refl, hblock⟩

/-- A declaration that is moved out of blocks is called what it was called in them, and so is all
else. -/
theorem qualifiedName_moveTo {d b a : Nat} (hd : u.StandsIn d b)
    (ha : Relation.ReflTransGen u.LeavesBlock b a) {c : Nat} (hc : c < u.decls.size) :
    (u.moveTo d a).qualifiedName c = u.qualifiedName c := by
  have hpasses : Relation.ReflTransGen (u.Passes Entity.scopeLabel?) b a :=
    Relation.ReflTransGen.mono (fun _ _ => LeavesBlock.passes) b a ha
  have hv := hu.moveTo_of_passes hd hpasses
  rw [hv.qualifiedName_eq (by rwa [decls_size_moveTo]), hu.qualifiedName_eq hc, read_moveTo,
    simpleName_moveTo, hu.read_ancestors_moveTo hd hpasses]

/-! ## Search by name -/

omit hu in
/-- A search goes through the words of the declarations, and the last word stands first for its own
index. -/
theorem find?_eq_some_iff_qualifiedName (name : String) (d : Nat) :
    u.find? name = some d ↔ d ≠ 0 ∧ d < u.decls.size ∧ d < UInt32.size ∧ u.qualifiedName d = name ∧
      ∀ c, c ≠ 0 → c < d → u.qualifiedName c ≠ name := by
  rw [find?, List.find?_map, Option.map_eq_some_iff]
  simp only [List.find?_range'_eq_some, List.mem_range'_1, Function.comp_apply, decide_eq_true_eq,
    Bool.not_eq_true', decide_eq_false_iff_not]
  constructor
  · rintro ⟨i, ⟨hname, hrange, hmiss⟩, rfl⟩
    have hi : i < UInt32.size := by
      -- An index beyond the last word would be met by its word, at an earlier turn.
      by_contra hlarge
      have hword : Handle.word (Handle.word i) = Handle.word i :=
        Handle.word_eq_self (Handle.word_lt i)
      have hlast : Handle.word i = UInt32.size - 1 := Nat.min_eq_right (by omega)
      refine hmiss (Handle.word i) ?_ ?_ (by rwa [hword])
      · rw [hlast]
        decide
      · have := Handle.word_lt i
        omega
    rw [Handle.word_eq_self hi] at hname ⊢
    refine ⟨by omega, by omega, hi, hname, ?_⟩
    intro c h0 hc
    have hskip := hmiss c (by omega) hc
    rwa [Handle.word_eq_self (by omega)] at hskip
  · rintro ⟨h0, hd, hword, hname, hmiss⟩
    refine ⟨d, ⟨by rwa [Handle.word_eq_self hword], by omega, ?_⟩, Handle.word_eq_self hword⟩
    intro c h1 hc
    rw [Handle.word_eq_self (by omega)]
    exact hmiss c (by omega) hc

theorem find?_eq_some_iff (name : String) (d : Nat) :
    u.find? name = some d ↔ d ≠ 0 ∧ d < u.decls.size ∧ d < UInt32.size ∧ u.NamedBy d name ∧
      ∀ c, c ≠ 0 → c < d → ¬ u.NamedBy c name := by
  have hnamed : ∀ c, c < u.decls.size → (u.NamedBy c name ↔ u.qualifiedName c = name) := fun c hc =>
    (hu.namedBy_iff hc name).trans eq_comm
  rw [find?_eq_some_iff_qualifiedName]
  constructor
  · rintro ⟨h0, hd, hword, hname, hmiss⟩
    refine ⟨h0, hd, hword, (hnamed d hd).2 hname, ?_⟩
    intro c hc0 hc h
    exact hmiss c hc0 hc ((hnamed c (Nat.lt_trans hc hd)).1 h)
  · rintro ⟨h0, hd, hword, hname, hmiss⟩
    refine ⟨h0, hd, hword, (hnamed d hd).1 hname, ?_⟩
    intro c hc0 hc h
    exact hmiss c hc0 hc ((hnamed c (Nat.lt_trans hc hd)).2 h)

end WellFormed

/-- In a unit that is grown by edits or loaded, the qualified name of a declaration is the one that
its lineage gives it. It is the same if the declaration is moved out of blocks. A search by name
finds the first declaration with that name along its lineage, the unit itself not counted, if there
is a word for it. -/
theorem qualifiedName_follows_lineage (hu : u.Reachable) :
    (∀ d, d < u.decls.size → ∀ name, u.NamedBy d name ↔ name = u.qualifiedName d) ∧
      (∀ d b, u.StandsIn d b → u.entity? b = some .block →
        ∃ a, u.OutOfBlocks b a ∧ u.Encloses a b ∧
          ∀ c, c < u.decls.size → (u.moveTo d a).qualifiedName c = u.qualifiedName c) ∧
      ∀ name d, u.find? name = some d ↔
        d ≠ 0 ∧ d < u.decls.size ∧ d < UInt32.size ∧ u.NamedBy d name ∧
        ∀ c, c ≠ 0 → c < d → ¬ u.NamedBy c name := by
  have hwf := hu.wellFormed
  refine ⟨fun d hd => hwf.namedBy_iff hd, ?_, hwf.find?_eq_some_iff⟩
  intro d b hd hblock
  have hb : b < u.decls.size := by
    obtain ⟨decl, hdecl, -⟩ := Option.map_eq_some_iff.1 hblock
    exact (Array.getElem?_eq_some_iff.1 hdecl).1
  obtain ⟨a, hpath, hend⟩ := hwf.exists_outOfBlocks hb
  refine ⟨a, ⟨hpath, hend⟩, ?_, fun c hc => hwf.qualifiedName_moveTo hd hpath hc⟩
  rcases Relation.reflTransGen_iff_eq_or_transGen.1 hpath with rfl | hsteps
  · exact absurd hblock hend
  · exact Relation.TransGen.mono (fun _ _ h => h.2) b a hsteps

end SourceUnit

/-- A class in a block of a function of a class, inside of three namespaces of which the innermost
has no name. -/
def Snapshot.nested : Snapshot where
  files := [⟨"content/widget.cc", false, none⟩]
  positions := [.inFile 0 1 1]
  decls := [.nameSpace (some "content") none, .nameSpace (some "internal") (some 0),
    .nameSpace none (some 1), .record "Widget" (some 2) 0 [], .function "Run" (some 3),
    .block (some 4), .record "Local" (some 5) 0 []]

theorem SourceUnit.qualifiedName_follows_lineage_nested :
    Snapshot.nested.load = .ok Snapshot.nested.image ∧
      Snapshot.nested.image.qualifiedName 7 =
        "content::internal::(anonymous namespace)::Widget::Run::Local" ∧
      (∃ a, Snapshot.nested.image.OutOfBlocks 6 a ∧
        (Snapshot.nested.image.moveTo 7 a).qualifiedName 7 =
          Snapshot.nested.image.qualifiedName 7) ∧
      Snapshot.nested.image.find? "content::internal" = some 2 := by
  have hload : Snapshot.nested.load = .ok Snapshot.nested.image := rfl
  obtain ⟨hname, hblock, hfind⟩ := qualifiedName_follows_lineage (Snapshot.reachable_of_load hload)
  have hcontent :=
    Lineage.within (u := Snapshot.nested.image) (d := 1) (q := 0) rfl (.outermost rfl)
  have hinternal := Lineage.within (u := Snapshot.nested.image) (d := 2) (q := 1) rfl hcontent
  refine ⟨hload, ?_, ?_, (hfind _ 2).2 ⟨by decide, by decide, by decide, ⟨_, hinternal, rfl⟩, ?_⟩⟩
  · have hlocal :
        Snapshot.nested.image.NamedBy 7
          "content::internal::(anonymous namespace)::Widget::Run::Local" :=
      ⟨_, .within rfl (.within rfl (.within rfl (.within rfl (.within rfl hinternal)))), rfl⟩
    exact ((hname 7 (by decide) _).1 hlocal).symm
  · obtain ⟨a, ha, -, hmoved⟩ := hblock 7 6 rfl rfl
    exact ⟨a, ha, hmoved 7 (by decide)⟩
  · intro c h0 hlt hc
    -- Before declaration 2 there is only the outermost namespace, and its name is another.
    obtain rfl : c = 1 := by omega
    have hother := (hname 1 (by decide) _).1 ⟨_, hcontent, rfl⟩
    exact absurd (((hname 1 (by decide) _).1 hc).trans hother.symm) (by decide)

end StyleZones

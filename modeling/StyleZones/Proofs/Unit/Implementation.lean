import StyleZones.Proofs.Unit.Expansion

/-!
# Texts of implementation files

A text counts as part of an implementation file if it was typed in one, or if one of the macros
around it is used in a text that was. So two kinds of links are followed: outwards along the
expansion links, and from each position on that way along its spelling links.

* `SourceUnit.TypedInImplementation` is about a position by itself, and says in full where its
  spelling links have to end.
* `SourceUnit.inImplementationFile_iff`: the search finds a position of that kind exactly if
  expansion links lead to one.
* `SourceUnit.inImplementationFile_of_link`: one step of the search.
-/

set_option autoImplicit false

namespace StyleZones

/-- The name of an implementation file ends with one of three suffixes. -/
theorem isImplementationName_iff (name : String) :
    isImplementationName name = true ↔
      ∃ suffix ∈ [".cc", ".cpp", ".mm"], suffix.toList <:+ name.toList := by
  rw [isImplementationName, List.any_eq_true]
  simp only [Text.endsWith, List.isSuffixOf_iff_suffix]
  rfl

namespace SourceUnit

variable {u : SourceUnit}

/-- The spelling links from a position end in a file that is spoken of by the name of an
implementation file. -/
def TypedInImplementation (u : SourceUnit) (p : Nat) : Prop :=
  ∃ q file line column f, EndsAt u.SpellingLink p q ∧
    u.positions[q]? = some (.inFile file line column) ∧
    u.files[file]? = some f ∧ ∃ suffix ∈ [".cc", ".cpp", ".mm"],
      suffix.toList <:+ (f.presumedName.getD f.name).toList

/-- The spelling links from a position end in no source text. -/
def TypedNowhere (u : SourceUnit) (p : Nat) : Prop :=
  ∃ q, EndsAt u.SpellingLink p q ∧ u.positions[q]? = some .invalid

theorem typedInImplementation_iff (hu : u.LinksDecrease) (p : Nat) :
    u.TypedInImplementation p ↔ ((u.fileName? p).map isImplementationName).getD false = true := by
  have hfile : ((u.fileName? p).map isImplementationName).getD false = true ↔
      ∃ f, u.file? (u.spelling p) = some f ∧ isImplementationName f.reportedName = true := by
    rw [fileName?_eq hu]
    cases u.file? (u.spelling p) with
    | none => simp
    | some f => simp
  rw [hfile]
  constructor
  · rintro ⟨q, file, line, column, f, hend, hposition, hf, hname⟩
    obtain rfl := (endsAt_spelling_iff hu p q).1 hend
    exact ⟨f, (file?_eq_some_iff _ f).2 ⟨file, line, column, hposition, hf⟩,
      (isImplementationName_iff _).2 hname⟩
  · rintro ⟨f, hf, hname⟩
    obtain ⟨file, line, column, hposition, hf⟩ := (file?_eq_some_iff _ f).1 hf
    exact ⟨_, file, line, column, f, (endsAt_spelling_iff hu p _).2 rfl, hposition, hf,
      (isImplementationName_iff _).1 hname⟩

/-- The search finds a position exactly if expansion links lead to one that was typed in an
implementation file. -/
theorem inImplementationFile_iff (hu : u.LinksDecrease) (p : Nat) :
    u.inImplementationFile p = true ↔
      ∃ q, Relation.ReflTransGen u.ExpansionLink p q ∧ u.TypedInImplementation q := by
  rw [inImplementationFile, List.any_eq_true]
  constructor
  · rintro ⟨q, hq, hhit⟩
    exact ⟨q, (mem_expansionChain_iff hu p q).1 hq, (typedInImplementation_iff hu q).2 hhit⟩
  · rintro ⟨q, hpath, hhit⟩
    exact ⟨q, (mem_expansionChain_iff hu p q).2 hpath, (typedInImplementation_iff hu q).1 hhit⟩

/-- At a macro position the search looks where the text was typed, and then goes on where the macro
is expanded. -/
theorem inImplementationFile_of_link (hu : u.LinksDecrease) {p e : Nat} (h : u.ExpansionLink p e) :
    u.inImplementationFile p = true ↔ u.TypedInImplementation p ∨
      u.inImplementationFile e = true := by
  rw [inImplementationFile_iff hu, inImplementationFile_iff hu]
  constructor
  · rintro ⟨q, hpath, hhit⟩
    rcases hpath.cases_head with rfl | ⟨e', he', hrest⟩
    · exact Or.inl hhit
    · -- There is one expansion link only.
      obtain rfl : e = e' := Option.some.inj (h.symm.trans he')
      exact Or.inr ⟨q, hrest, hhit⟩
  · rintro (hhit | ⟨q, hrest, hhit⟩)
    · exact ⟨p, .refl, hhit⟩
    · exact ⟨q, .head h hrest, hhit⟩

/-- What is found further out is found from further in. -/
theorem inImplementationFile_of_path (hu : u.LinksDecrease) {p q : Nat}
    (hpath : Relation.ReflTransGen u.ExpansionLink p q) (hq : u.inImplementationFile q = true) :
    u.inImplementationFile p = true := by
  obtain ⟨r, hrest, hhit⟩ := (inImplementationFile_iff hu q).1 hq
  exact (inImplementationFile_iff hu p).2 ⟨r, hpath.trans hrest, hhit⟩

/-- Spelling links that end in no source text end in no implementation file. -/
theorem TypedNowhere.not_typedInImplementation (hu : u.LinksDecrease) {p : Nat}
    (h : u.TypedNowhere p) :
    ¬ u.TypedInImplementation p := by
  obtain ⟨q, hend, hinvalid⟩ := h
  rintro ⟨r, file, line, column, f, hend', hposition, -, -⟩
  rw [(endsAt_spelling_iff hu p q).1 hend, ← (endsAt_spelling_iff hu p r).1 hend',
    hposition] at hinvalid
  cases hinvalid

/-- In a unit that is grown by edits or loaded, a position counts as part of an implementation file
exactly if expansion links lead from it to a position whose spelling links end in a file with such a
name. At a macro position that is the case if its own text was typed in such a file, or if the
position counts at which the macro is expanded. Whatever counts further out counts further in, and a
position on the way whose text was typed nowhere leaves the answer to the positions outside. -/
theorem inImplementationFile_iff_leads_to_typed (hu : u.Reachable) (p : Nat) :
    (u.inImplementationFile p = true ↔
      ∃ q, Relation.ReflTransGen u.ExpansionLink p q ∧ u.TypedInImplementation q) ∧
    (∀ e, u.ExpansionLink p e →
      (u.inImplementationFile p = true ↔ u.TypedInImplementation p ∨
        u.inImplementationFile e = true)) ∧
    (∀ q, Relation.ReflTransGen u.ExpansionLink p q → u.inImplementationFile q = true →
      u.inImplementationFile p = true) ∧
    ∀ q e, Relation.ReflTransGen u.ExpansionLink p q → u.ExpansionLink q e → u.TypedNowhere q →
      u.inImplementationFile q = u.inImplementationFile e := by
  have hlinks := hu.wellFormed.linksDecrease
  refine ⟨inImplementationFile_iff hlinks p, ?_, ?_, ?_⟩
  · intro e he
    exact inImplementationFile_of_link hlinks he
  · intro q hpath
    exact inImplementationFile_of_path hlinks hpath
  · intro q e _ he hnowhere
    rw [Bool.eq_iff_iff, inImplementationFile_of_link hlinks he]
    exact or_iff_right (hnowhere.not_typedInImplementation hlinks)

end SourceUnit

/-- A use in a file that a line directive gives the name of an implementation file, and two macros
around a text of a header. The text of the outer one was typed nowhere, and that of the inner one in
the header, through a macro of its own. -/
def Snapshot.layeredUse : Snapshot where
  files := [⟨"base/macros.h", false, none⟩, ⟨"gen/thing.y", false, some "chrome/thing.mm"⟩]
  positions := [.inFile 1 12 3, .invalid, .inFile 0 4 1, .inMacro 1 0, .inMacro 2 1, .inMacro 4 3]
  decls := []

theorem SourceUnit.inImplementationFile_iff_leads_to_typed_layered :
    Snapshot.layeredUse.load = .ok Snapshot.layeredUse.image ∧
      Snapshot.layeredUse.image.inImplementationFile 5 = true ∧
      Snapshot.layeredUse.image.inImplementationFile 3 =
        Snapshot.layeredUse.image.inImplementationFile 0 ∧
      (Snapshot.layeredUse.image.inImplementationFile 5 = true ↔
        Snapshot.layeredUse.image.TypedInImplementation 5 ∨
          Snapshot.layeredUse.image.inImplementationFile 3 = true) := by
  obtain ⟨hmeans, hstep, -, hskip⟩ :=
    inImplementationFile_iff_leads_to_typed (u := Snapshot.layeredUse.image)
      (Snapshot.reachable_of_load (s := Snapshot.layeredUse) rfl) 5
  refine ⟨rfl, hmeans.2 ⟨0, .tail (.single (b := 3) rfl) rfl, ?_⟩, hskip 3 0 (.single rfl) rfl ?_,
    hstep 3 rfl⟩
  · refine ⟨0, 1, 12, 3, _, ⟨.refl, ?_⟩, rfl, rfl, ".mm", by simp, by decide⟩
    rintro r ⟨⟩
  · refine ⟨1, ⟨.single rfl, ?_⟩, rfl⟩
    rintro r ⟨⟩

end StyleZones

import StyleZones.Proofs.Snapshot.Image
import StyleZones.Proofs.Unit.Walks

/-!
# Positions of a snapshot

What is asked about a position, in which file its text was typed and in which file it is used, is
read here off the entries of the snapshot: by chains of links between entries, with nothing said
about units.

* `Snapshot.TypedIn` and `Snapshot.TypedNowhere` look at the end of the spelling links,
  `Snapshot.UsedIn` at the end of the expansion links.
* `Snapshot.typedIn_iff`, `Snapshot.typedNowhere_iff` and `Snapshot.usedIn_iff`: for a snapshot
  without faults, the walks of its unit find the same.
-/

set_option autoImplicit false

namespace StyleZones.Snapshot

variable (s : Snapshot)

/-! ## Links and files -/

/-- Entry `p` is in a macro, and its text is spelled at entry `q`. -/
def SpellingStep (p q : Nat) : Prop :=
  ∃ spelling expansion, s.positions[p]? = some (.inMacro spelling expansion) ∧ spelling.toNat = q

/-- Entry `p` is in a macro, and the macro is expanded at entry `q`. -/
def ExpansionStep (p q : Nat) : Prop :=
  ∃ spelling expansion, s.positions[p]? = some (.inMacro spelling expansion) ∧ expansion.toNat = q

/-- Entry `p` stands in the file. -/
def StandsIn (p : Nat) (f : SourceFile) : Prop :=
  ∃ file line column, s.positions[p]? = some (.inFile file line column) ∧
    s.files[file.toNat]? = some f

/-- The spelling links from entry `p` end in the file. -/
def TypedIn (p : Nat) (f : SourceFile) : Prop :=
  ∃ q, EndsAt s.SpellingStep p q ∧ s.StandsIn q f

/-- The spelling links from entry `p` end in no source text. -/
def TypedNowhere (p : Nat) : Prop :=
  ∃ q, EndsAt s.SpellingStep p q ∧ s.positions[q]? = some .invalid

/-- The expansion links from entry `p` end in the file. -/
def UsedIn (p : Nat) (f : SourceFile) : Prop :=
  ∃ q, EndsAt s.ExpansionStep p q ∧ s.StandsIn q f

/-! ## The unit of the snapshot -/

@[simp] theorem getElem?_image_positions (p : Nat) :
    s.image.positions[p]? = s.positions[p]?.map PositionEntry.image := by
  simp [image, SourceUnit.ofLists]

@[simp] theorem getElem?_image_files (i : Nat) : s.image.files[i]? = s.files[i]? := by
  simp [image, SourceUnit.ofLists]

/-- A macro position of the unit is a macro position of the snapshot, with the same indices. -/
theorem image_positions_eq_inMacro_iff (p a b : Nat) :
    s.image.positions[p]? = some (.inMacro a b) ↔
      ∃ spelling expansion, s.positions[p]? = some (.inMacro spelling expansion) ∧
        spelling.toNat = a ∧ expansion.toNat = b := by
  rw [getElem?_image_positions]
  cases s.positions[p]? with
  | none => simp
  | some e => cases e <;> simp [PositionEntry.image]

/-- The unit has the spelling links of the snapshot. -/
theorem image_spellingLink : s.image.SpellingLink = s.SpellingStep := by
  funext p q
  rw [SourceUnit.SpellingLink, SourceUnit.spellingLink?_eq_some_iff, eq_iff_iff]
  constructor
  · rintro ⟨e, he⟩
    obtain ⟨spelling, expansion, hp, hq, -⟩ := (s.image_positions_eq_inMacro_iff p q e).1 he
    exact ⟨spelling, expansion, hp, hq⟩
  · rintro ⟨spelling, expansion, hp, hq⟩
    exact ⟨_, (s.image_positions_eq_inMacro_iff p q _).2 ⟨spelling, expansion, hp, hq, rfl⟩⟩

theorem image_expansionLink : s.image.ExpansionLink = s.ExpansionStep := by
  funext p q
  rw [SourceUnit.ExpansionLink, SourceUnit.expansionLink?_eq_some_iff, eq_iff_iff]
  constructor
  · rintro ⟨e, he⟩
    obtain ⟨spelling, expansion, hp, -, hq⟩ := (s.image_positions_eq_inMacro_iff p e q).1 he
    exact ⟨spelling, expansion, hp, hq⟩
  · rintro ⟨spelling, expansion, hp, hq⟩
    exact ⟨_, (s.image_positions_eq_inMacro_iff p _ q).2 ⟨spelling, expansion, hp, rfl, hq⟩⟩

/-- A position of the unit is in the file in which it stands in the snapshot. -/
theorem image_file?_eq_some_iff (p : Nat) (f : SourceFile) :
    s.image.file? p = some f ↔ s.StandsIn p f := by
  rw [SourceUnit.file?_eq_some_iff, StandsIn]
  simp only [getElem?_image_positions, getElem?_image_files]
  cases s.positions[p]? with
  | none => simp
  | some e => cases e <;> simp [PositionEntry.image]

theorem image_positions_eq_invalid_iff (p : Nat) :
    s.image.positions[p]? = some .invalid ↔ s.positions[p]? = some .invalid := by
  rw [getElem?_image_positions]
  cases s.positions[p]? with
  | none => simp
  | some e => cases e <;> simp [PositionEntry.image]

variable {s}

/-- Without faults, the macro positions of the unit link to earlier positions. -/
theorem Faultless.linksDecrease (hs : s.Faultless) : s.image.LinksDecrease := by
  intro p a b h
  obtain ⟨spelling, expansion, hp, rfl, rfl⟩ := (s.image_positions_eq_inMacro_iff p a b).1 h
  exact hs.link_lt hp

/-! ## The walks of the unit -/

/-- Spelling steps end where the unit finds that the text was typed. -/
theorem endsAt_spellingStep_iff (hs : s.Faultless) (p q : Nat) :
    EndsAt s.SpellingStep p q ↔ q = s.image.spelling p := by
  rw [← image_spellingLink]
  exact SourceUnit.endsAt_spelling_iff hs.linksDecrease p q

/-- Expansion steps end where the unit finds that the outermost macro is used. -/
theorem endsAt_expansionStep_iff (hs : s.Faultless) (p q : Nat) :
    EndsAt s.ExpansionStep p q ↔ q = s.image.expansionRoot p := by
  rw [← image_expansionLink]
  exact SourceUnit.endsAt_expansion_iff hs.linksDecrease p q

/-- The file in which a text was typed, put in terms of the unit. -/
theorem typedIn_iff (hs : s.Faultless) (p : Nat) (f : SourceFile) :
    s.TypedIn p f ↔ s.image.file? (s.image.spelling p) = some f := by
  rw [TypedIn, image_file?_eq_some_iff]
  simp only [endsAt_spellingStep_iff hs, exists_eq_left]

theorem typedNowhere_iff (hs : s.Faultless) (p : Nat) :
    s.TypedNowhere p ↔ s.image.positions[s.image.spelling p]? = some .invalid := by
  rw [TypedNowhere, image_positions_eq_invalid_iff]
  simp only [endsAt_spellingStep_iff hs, exists_eq_left]

theorem usedIn_iff (hs : s.Faultless) (p : Nat) (f : SourceFile) :
    s.UsedIn p f ↔ s.image.file? (s.image.expansionRoot p) = some f := by
  rw [UsedIn, image_file?_eq_some_iff]
  simp only [endsAt_expansionStep_iff hs, exists_eq_left]

/-- A text was typed in one file at most. -/
theorem TypedIn.unique (hs : s.Faultless) {p : Nat} {f g : SourceFile} (hf : s.TypedIn p f)
    (hg : s.TypedIn p g) : f = g :=
  Option.some.inj (((typedIn_iff hs p f).1 hf).symm.trans ((typedIn_iff hs p g).1 hg))

/-- The text at a position of a snapshot without faults was typed in a file, or nowhere. -/
theorem typedIn_or_typedNowhere (hs : s.Faultless) {p : Nat} (hp : p < s.positions.length) :
    (∃ f, s.TypedIn p f) ∨ s.TypedNowhere p := by
  have hsize : p < s.image.positions.size := by simpa [image, SourceUnit.ofLists] using hp
  rcases SourceUnit.positions_spelling hs.linksDecrease hsize with ⟨i, line, column, h⟩ | h
  · -- The file of the position is listed, or the reference to it would be at fault.
    have hlisted : i < s.files.length := by
      rw [getElem?_image_positions, Option.map_eq_some_iff] at h
      obtain ⟨e, he, himage⟩ := h
      cases e with
      | inFile file line' column' =>
        obtain ⟨rfl, -, -⟩ := Position.inFile.inj himage
        exact hs.file_lt he
      | inMacro spelling expansion => cases himage
      | invalid => cases himage
    refine Or.inl ⟨s.files[i], (typedIn_iff hs p _).2 ?_⟩
    rw [SourceUnit.file?_eq_some_iff]
    exact ⟨i, line, column, h, by simp [hlisted]⟩
  · exact Or.inr ((typedNowhere_iff hs p).2 h)

end StyleZones.Snapshot

import Mathlib.Logic.Relation
import StyleZones.Unit.Position

/-!
# Where the links of positions lead

A walk follows the links of one kind as long as there are any. `EndsAt` says this for any relation:
a chain of steps from the first place to the second, and no step from there. Two walks that never
meet a choice end at the same place (`EndsAt.unique`).

In a unit whose macro positions link to earlier positions, the two walks of a position come to their
ends, and nowhere else (`SourceUnit.endsAt_spelling_iff`, `SourceUnit.endsAt_expansion_iff`). At the
end of either walk stands a position outside macros.
-/

set_option autoImplicit false

namespace StyleZones

/-! ## Walks -/

/-- Steps lead from `p` to `q`, and no further. -/
def EndsAt (step : Nat → Nat → Prop) (p q : Nat) : Prop :=
  Relation.ReflTransGen step p q ∧ ∀ r, ¬ step q r

/-- If there is at most one step from each place, there is at most one end. -/
theorem EndsAt.unique {step : Nat → Nat → Prop}
    (hstep : ∀ a b c, step a b → step a c → b = c) {p q r : Nat} (hq : EndsAt step p q)
    (hr : EndsAt step p r) : q = r := by
  obtain ⟨hpq, hend⟩ := hq
  -- By induction on the steps to `q`: the steps to `r` begin with the same one.
  induction hpq using Relation.ReflTransGen.head_induction_on with
  | refl =>
    rcases hr.1.cases_head with heq | ⟨c, hqc, -⟩
    · exact heq
    · exact absurd hqc (hend c)
  | @head a b hab _ ih =>
    rcases hr.1.cases_head with heq | ⟨c, hac, hcr⟩
    · subst heq
      exact absurd hab (hr.2 b)
    · rw [← hstep a b c hab hac] at hcr
      exact ih ⟨hcr, hr.2⟩

/-- Steps to smaller places end at a place that is not greater. -/
theorem EndsAt.le {step : Nat → Nat → Prop} (hlt : ∀ a b, step a b → b < a) {p q : Nat}
    (h : EndsAt step p q) : q ≤ p := by
  obtain ⟨hpq, -⟩ := h
  induction hpq with
  | refl => exact Nat.le_refl p
  | tail _ hbc ih => exact Nat.le_of_lt (Nat.lt_of_lt_of_le (hlt _ _ hbc) ih)

/-- A function that follows links to smaller places finds the end of the links. -/
theorem endsAt_walk {link : Nat → Option Nat} {walk : Nat → Nat}
    (hwalk : ∀ p, walk p =
      match link p with
      | some q => if q < p then walk q else p
      | none => p)
    (hlt : ∀ p q, link p = some q → q < p) (p : Nat) :
    EndsAt (fun a b => link a = some b) p (walk p) := by
  induction p using Nat.strongRecOn with
  | ind p ih =>
    rw [hwalk p]
    cases hl : link p with
    | none => exact ⟨.refl, fun r hr => by simp [hl] at hr⟩
    | some q =>
      have hqp : q < p := hlt p q hl
      obtain ⟨hpath, hend⟩ := ih q hqp
      simp only [hqp, if_true]
      exact ⟨.head hl hpath, hend⟩

/-- The end of the links is nowhere else. -/
theorem endsAt_walk_iff {link : Nat → Option Nat} {walk : Nat → Nat}
    (hwalk : ∀ p, walk p =
      match link p with
      | some q => if q < p then walk q else p
      | none => p)
    (hlt : ∀ p q, link p = some q → q < p) (p q : Nat) :
    EndsAt (fun a b => link a = some b) p q ↔ q = walk p := by
  constructor
  · intro h
    -- A place has one link at most, so that the walk meets no choice.
    exact h.unique (fun a b c hb hc => Option.some.inj (hb.symm.trans hc)) (endsAt_walk hwalk hlt p)
  · rintro rfl
    exact endsAt_walk hwalk hlt p

/-! ## The walks of a unit -/

namespace SourceUnit

variable (u : SourceUnit)

/-- The links of macro positions lead to earlier positions. -/
def LinksDecrease : Prop :=
  ∀ p spelling expansion : Nat, u.positions[p]? = some (.inMacro spelling expansion) →
    spelling < p ∧ expansion < p

/-- A position is in a macro, and its text is spelled at another. -/
def SpellingLink (p q : Nat) : Prop :=
  u.spellingLink? p = some q

/-- A position is in a macro, and the macro is expanded at another. -/
def ExpansionLink (p q : Nat) : Prop :=
  u.expansionLink? p = some q

theorem spellingLink?_eq_some_iff (p q : Nat) :
    u.spellingLink? p = some q ↔ ∃ e, u.positions[p]? = some (.inMacro q e) := by
  unfold spellingLink?
  cases h : u.positions[p]? with
  | none => simp
  | some position => cases position <;> simp [eq_comm]

theorem expansionLink?_eq_some_iff (p q : Nat) :
    u.expansionLink? p = some q ↔ ∃ s, u.positions[p]? = some (.inMacro s q) := by
  unfold expansionLink?
  cases h : u.positions[p]? with
  | none => simp
  | some position => cases position <;> simp [eq_comm]

/-- A position has either both links or none. -/
theorem expansionLink?_eq_none_of_spelling {p : Nat} (h : u.spellingLink? p = none) :
    u.expansionLink? p = none := by
  unfold spellingLink? at h
  unfold expansionLink?
  cases hp : u.positions[p]? with
  | none => rfl
  | some position =>
    cases position with
    | inMacro s e => simp [hp] at h
    | inFile file line column => rfl
    | invalid => rfl

variable {u}

theorem SpellingLink.lt (hu : u.LinksDecrease) (p q : Nat) (h : u.SpellingLink p q) : q < p := by
  obtain ⟨e, he⟩ := (u.spellingLink?_eq_some_iff p q).1 h
  exact (hu p q e he).1

theorem ExpansionLink.lt (hu : u.LinksDecrease) (p q : Nat) (h : u.ExpansionLink p q) : q < p := by
  obtain ⟨s, hs⟩ := (u.expansionLink?_eq_some_iff p q).1 h
  exact (hu p s q hs).2

/-- The spelling of a position is the one end of its spelling links. -/
theorem endsAt_spelling_iff (hu : u.LinksDecrease) (p q : Nat) :
    EndsAt u.SpellingLink p q ↔ q = u.spelling p :=
  endsAt_walk_iff (spelling.eq_def u) (SpellingLink.lt hu) p q

/-- The expansion root of a position is the one end of its expansion links. -/
theorem endsAt_expansion_iff (hu : u.LinksDecrease) (p q : Nat) :
    EndsAt u.ExpansionLink p q ↔ q = u.expansionRoot p :=
  endsAt_walk_iff (expansionRoot.eq_def u) (ExpansionLink.lt hu) p q

/-! ## What stands at the end -/

theorem file?_eq_some_iff (p : Nat) (f : SourceFile) :
    u.file? p = some f ↔
      ∃ file line column, u.positions[p]? = some (.inFile file line column) ∧
        u.files[file]? = some f := by
  unfold file?
  cases h : u.positions[p]? with
  | none => simp
  | some position =>
    cases position with
    | inFile file line column => simp
    | inMacro s e => simp
    | invalid => simp

theorem inSystemHeader_iff (p : Nat) :
    u.inSystemHeader p = true ↔ ∃ f, u.file? (u.expansionRoot p) = some f ∧ f.system = true := by
  unfold inSystemHeader
  cases u.file? (u.expansionRoot p) with
  | none => simp
  | some f => simp

/-- The end of the spelling links has no expansion link either, so that it is reported where it
stands. -/
theorem expansionRoot_spelling (hu : u.LinksDecrease) (p : Nat) :
    u.expansionRoot (u.spelling p) = u.spelling p := by
  obtain ⟨-, hend⟩ := (endsAt_spelling_iff hu p (u.spelling p)).2 rfl
  have hspelling : u.spellingLink? (u.spelling p) = none :=
    Option.eq_none_iff_forall_ne_some.2 hend
  have hexpansion := u.expansionLink?_eq_none_of_spelling hspelling
  have hstay : EndsAt u.ExpansionLink (u.spelling p) (u.spelling p) :=
    ⟨.refl, fun r hr => by simp [ExpansionLink, hexpansion] at hr⟩
  exact ((endsAt_expansion_iff hu _ _).1 hstay).symm

/-- The name of the file in which a text was typed is the reported name of the file at the end of
the spelling links. -/
theorem fileName?_eq (hu : u.LinksDecrease) (p : Nat) :
    u.fileName? p = (u.file? (u.spelling p)).map SourceFile.reportedName := by
  unfold fileName? presumedLocation? file?
  rw [expansionRoot_spelling hu]
  cases h : u.positions[u.spelling p]? with
  | none => rfl
  | some position =>
    cases position with
    | inFile file line column => simp [Option.map_map, Function.comp_def]
    | inMacro s e => rfl
    | invalid => rfl

/-- A walk from a position of the unit ends at a position of the unit. -/
theorem spelling_lt_size (hu : u.LinksDecrease) {p : Nat} (hp : p < u.positions.size) :
    u.spelling p < u.positions.size :=
  Nat.lt_of_le_of_lt (((endsAt_spelling_iff hu p _).2 rfl).le (SpellingLink.lt hu)) hp

theorem expansionRoot_lt_size (hu : u.LinksDecrease) {p : Nat} (hp : p < u.positions.size) :
    u.expansionRoot p < u.positions.size :=
  Nat.lt_of_le_of_lt (((endsAt_expansion_iff hu p _).2 rfl).le (ExpansionLink.lt hu)) hp

/-- The positions along the expansion links come one before the other. -/
theorem le_of_mem_expansionChain {p q : Nat} (hq : q ∈ u.expansionChain p) : q ≤ p := by
  fun_induction expansionChain u p with
  | case1 p next _ hlt ih =>
    rcases List.mem_cons.1 hq with rfl | hq
    · exact Nat.le_refl _
    · exact Nat.le_trans (ih hq) (Nat.le_of_lt hlt)
  | case2 p _ _ _ => exact Nat.le_of_eq (List.mem_singleton.1 hq)
  | case3 p _ => exact Nat.le_of_eq (List.mem_singleton.1 hq)

/-- The spelling of a position of the unit stands in a file or nowhere, but not in a macro. -/
theorem positions_spelling (hu : u.LinksDecrease) {p : Nat} (hp : p < u.positions.size) :
    (∃ file line column, u.positions[u.spelling p]? = some (.inFile file line column)) ∨
      u.positions[u.spelling p]? = some .invalid := by
  obtain ⟨-, hend⟩ := (endsAt_spelling_iff hu p (u.spelling p)).2 rfl
  obtain ⟨position, hposition⟩ : ∃ position, u.positions[u.spelling p]? = some position :=
    ⟨_, Array.getElem?_eq_getElem (spelling_lt_size hu hp)⟩
  cases position with
  | inFile file line column => exact Or.inl ⟨file, line, column, hposition⟩
  | inMacro s e =>
    -- From a macro position the walk would have gone on.
    exact absurd ((u.spellingLink?_eq_some_iff _ s).2 ⟨e, hposition⟩) (hend s)
  | invalid => exact Or.inr hposition

end SourceUnit

end StyleZones

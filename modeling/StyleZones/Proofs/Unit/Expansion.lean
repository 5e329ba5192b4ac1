import Mathlib.Data.List.Chain
import StyleZones.Proofs.Snapshot.Image
import StyleZones.Proofs.Unit.Stability

/-!
# The chain of expansions and the end of the spellings

Three walks start from a position. An iterator goes outwards along the expansion links and looks one
link ahead, a loop follows the expansion links to their end, and another loop follows the spelling
links to theirs.

* `SourceUnit.givesOut_iff`: the iterator gives out the steps of the chain of expansions, and then
  it is exhausted.
* `SourceUnit.Outwards` says what a chain of expansions is like. If links lead to earlier positions,
  every position has one, and it ends where the loop ends (`SourceUnit.LinksDecrease.outwards`).
* `SourceUnit.mem_expansionChain_iff`: the chain holds the positions that expansion links lead to.
* `SourceUnit.LinksDecrease.spells`: the spelling links end outside macros.
* Where a position is reported does not depend on spelling links
  (`SourceUnit.SameExpansions.presumedLocation?_eq`), and in which file its text was typed does not
  depend on expansion links (`SourceUnit.SameSpellings.fileName?_eq`).
-/

set_option autoImplicit false

namespace StyleZones

/-! ## Iterators -/

/-- What an iterator gives out from a state on, up to the state in which it has no more to give. -/
inductive GivesOut {σ α : Type} (next : σ → Option (α × σ)) : σ → List α → Prop
  /-- There is no more. -/
  | exhausted {s : σ} : next s = none → GivesOut next s []
  /-- There is one more, and what comes after it. -/
  | more {s t : σ} {a : α} {as : List α} : next s = some (a, t) → GivesOut next t as →
      GivesOut next s (a :: as)

/-- An iterator gives out one list at most. -/
theorem GivesOut.unique {σ α : Type} {next : σ → Option (α × σ)} {s : σ} {as bs : List α}
    (ha : GivesOut next s as) (hb : GivesOut next s bs) : as = bs := by
  induction ha generalizing bs with
  | exhausted hend =>
    cases hb with
    | exhausted _ => rfl
    | more hnext _ =>
      rw [hend] at hnext
      cases hnext
  | more hnext _ ih =>
    cases hb with
    | exhausted hend =>
      rw [hnext] at hend
      cases hend
    | more hnext' hrest =>
      rw [hnext] at hnext'
      cases hnext'
      rw [ih hrest]

/-- The position, with any expansion link it has made to lead to the start. -/
def Position.forgetExpansion : Position → Position
  | .inMacro spelling _ => .inMacro spelling 0
  | position => position

/-- The position, with any spelling link it has made to lead to the start. -/
def Position.forgetSpelling : Position → Position
  | .inMacro _ expansion => .inMacro 0 expansion
  | position => position

/-- Positions that are the same up to expansion links are the same, or both are in macros with the
same text. -/
theorem Position.forgetExpansion_cases {o o' : Option Position}
    (h : o.map forgetExpansion = o'.map forgetExpansion) :
    o = o' ∨ ∃ spelling e e', o = some (.inMacro spelling e) ∧
      o' = some (.inMacro spelling e') := by
  rcases o with _ | _ | _ | _ <;> rcases o' with _ | _ | _ | _ <;> simp_all [forgetExpansion]

/-- Positions that are the same up to spelling links are the same, or both are in macros with the
same use. -/
theorem Position.forgetSpelling_cases {o o' : Option Position}
    (h : o.map forgetSpelling = o'.map forgetSpelling) :
    o = o' ∨ ∃ s s' expansion, o = some (.inMacro s expansion) ∧
      o' = some (.inMacro s' expansion) := by
  rcases o with _ | _ | _ | _ <;> rcases o' with _ | _ | _ | _ <;> simp_all [forgetSpelling]

namespace SourceUnit

variable (u : SourceUnit)

/-- One move of the iterator outwards. Its state is the position that it gives out next, if there is
one. It looks for the position after that first, and gives out the position together with whether it
has found one. -/
def outward : Option Nat → Option ((Nat × Bool) × Option Nat)
  | none => none
  | some p => some ((p, (u.expansionLink? p).isSome), u.expansionLink? p)

/-- The chain of expansions from a position, with whether each position on it is in a macro. -/
def expansionSteps (p : Nat) : List (Nat × Bool) :=
  (u.expansionChain p).map fun q => (q, u.isMacro q)

/-- The steps lead outwards from a position to the end of its expansion links. -/
structure Outwards (p : Nat) (steps : List (Nat × Bool)) : Prop where
  /-- The first step is at the position itself. -/
  starts : (steps.map Prod.fst).head? = some p
  /-- Each position is followed by the one where its macro is expanded. -/
  linked : (steps.map Prod.fst).IsChain u.ExpansionLink
  /-- The positions come one before the other. -/
  decreasing : (steps.map Prod.fst).Pairwise fun q r => r < q
  /-- All steps but the last are in macros, and the last is at the end of the expansion links. -/
  ends : ∃ inner : List Nat, steps = inner.map (fun q => (q, true)) ++ [(u.expansionRoot p, false)]

/-- The position `q` is where the text at `p` was typed. -/
structure Spells (p q : Nat) : Prop where
  /-- The spelling links from `p` lead to `q`, and no further. -/
  endsAt : EndsAt u.SpellingLink p q
  /-- The text at `q` was typed there. -/
  fixed : u.spelling q = q
  /-- There is no macro at `q`. -/
  outside : u.isMacro q = false
  /-- It comes no later than `p`. -/
  le : q ≤ p
  /-- It is another position exactly if `p` is in a macro. -/
  eq_iff : q = p ↔ u.isMacro p = false

/-- Another unit has the same files and positions, up to where macros are expanded. -/
structure SameSpellings (u v : SourceUnit) : Prop where
  files : v.files = u.files
  positions : v.positions.map Position.forgetExpansion = u.positions.map Position.forgetExpansion

/-- Another unit has the same files and positions, up to where the texts of macros are spelled. -/
structure SameExpansions (u v : SourceUnit) : Prop where
  files : v.files = u.files
  positions : v.positions.map Position.forgetSpelling = u.positions.map Position.forgetSpelling

variable {u}

/-! ## Macro positions -/

theorem isMacro_eq_false_iff (p : Nat) : u.isMacro p = false ↔ u.expansionLink? p = none := by
  rw [isMacro, Option.isSome_eq_false_iff, Option.isNone_iff_eq_none]

/-- A position of the unit outside macros stands in a file or nowhere. -/
theorem inFile_or_invalid {p : Nat} (hp : p < u.positions.size) (houtside : u.isMacro p = false) :
    (∃ file line column, u.positions[p]? = some (.inFile file line column)) ∨
      u.positions[p]? = some .invalid := by
  obtain ⟨position, hposition⟩ : ∃ position, u.positions[p]? = some position :=
    ⟨_, Array.getElem?_eq_getElem hp⟩
  cases position with
  | inFile file line column => exact Or.inl ⟨file, line, column, hposition⟩
  | inMacro spelling expansion =>
    have hlink := (u.expansionLink?_eq_some_iff p expansion).2 ⟨spelling, hposition⟩
    rw [(isMacro_eq_false_iff p).1 houtside] at hlink
    cases hlink
  | invalid => exact Or.inr hposition

/-- The end of the expansion links has none itself. -/
theorem isMacro_expansionRoot (hu : u.LinksDecrease) (p : Nat) :
    u.isMacro (u.expansionRoot p) = false := by
  obtain ⟨-, hend⟩ := (endsAt_expansion_iff hu p _).2 rfl
  rw [isMacro_eq_false_iff]
  exact Option.eq_none_iff_forall_ne_some.2 hend

/-! ## The chain of expansions -/

/-- The chain goes on from where the link leads. -/
theorem expansionChain_of_link {p q : Nat} (h : u.ExpansionLink p q) (hlt : q < p) :
    u.expansionChain p = p :: u.expansionChain q := by
  rw [expansionChain.eq_def, h]
  exact if_pos hlt

theorem expansionChain_of_end {p : Nat} (h : u.expansionLink? p = none) :
    u.expansionChain p = [p] := by
  rw [expansionChain.eq_def, h]

theorem head?_expansionChain (p : Nat) : (u.expansionChain p).head? = some p := by
  rw [expansionChain.eq_def]
  cases u.expansionLink? p with
  | none => rfl
  | some q =>
    dsimp only
    split <;> rfl

theorem map_fst_expansionSteps (p : Nat) :
    (u.expansionSteps p).map Prod.fst = u.expansionChain p := by
  rw [expansionSteps, List.map_map]
  exact List.map_id _

/-- The chain holds the positions that zero or more expansion links lead to. -/
theorem mem_expansionChain_iff (hu : u.LinksDecrease) (p q : Nat) :
    q ∈ u.expansionChain p ↔ Relation.ReflTransGen u.ExpansionLink p q := by
  induction p using Nat.strongRecOn with
  | ind p ih =>
    rw [Relation.ReflTransGen.cases_head_iff]
    cases hlink : u.expansionLink? p with
    | none =>
      rw [expansionChain_of_end hlink, List.mem_singleton]
      constructor
      · rintro rfl
        exact Or.inl rfl
      · rintro (rfl | ⟨r, hr, -⟩)
        · rfl
        · -- There is no link to follow.
          rw [ExpansionLink, hlink] at hr
          cases hr
    | some r =>
      have hlt : r < p := ExpansionLink.lt hu p r hlink
      rw [expansionChain_of_link hlink hlt, List.mem_cons, ih r hlt]
      constructor
      · rintro (rfl | hpath)
        · exact Or.inl rfl
        · exact Or.inr ⟨r, hlink, hpath⟩
      · rintro (rfl | ⟨s, hs, hpath⟩)
        · exact Or.inl rfl
        · -- The first link of any way outwards is the one that the chain takes.
          rw [ExpansionLink, hlink] at hs
          cases hs
          exact Or.inr hpath

/-- All positions on the chain have the same end of their expansion links. -/
theorem expansionRoot_of_mem (hu : u.LinksDecrease) {p q : Nat} (hq : q ∈ u.expansionChain p) :
    u.expansionRoot q = u.expansionRoot p := by
  have hpath := (mem_expansionChain_iff hu p q).1 hq
  obtain ⟨hrest, hend⟩ := (endsAt_expansion_iff hu q _).2 rfl
  exact (endsAt_expansion_iff hu p _).1 ⟨hpath.trans hrest, hend⟩

/-- Each position of the chain is linked to the one after it. -/
theorem isChain_expansionChain (hu : u.LinksDecrease) (p : Nat) :
    (u.expansionChain p).IsChain u.ExpansionLink := by
  induction p using Nat.strongRecOn with
  | ind p ih =>
    cases hlink : u.expansionLink? p with
    | none =>
      rw [expansionChain_of_end hlink]
      exact .singleton p
    | some q =>
      have hlt : q < p := ExpansionLink.lt hu p q hlink
      rw [expansionChain_of_link hlink hlt, List.isChain_cons]
      refine ⟨?_, ih q hlt⟩
      intro r hr
      rw [head?_expansionChain] at hr
      exact Option.some.inj hr ▸ hlink

theorem pairwise_expansionChain (hu : u.LinksDecrease) (p : Nat) :
    (u.expansionChain p).Pairwise fun q r => r < q := by
  induction p using Nat.strongRecOn with
  | ind p ih =>
    cases hlink : u.expansionLink? p with
    | none =>
      rw [expansionChain_of_end hlink]
      exact List.pairwise_singleton _ p
    | some q =>
      have hlt : q < p := ExpansionLink.lt hu p q hlink
      rw [expansionChain_of_link hlink hlt, List.pairwise_cons]
      refine ⟨?_, ih q hlt⟩
      intro r hr
      exact Nat.lt_of_le_of_lt (le_of_mem_expansionChain hr) hlt

theorem expansionSteps_of_link {p q : Nat} (h : u.ExpansionLink p q) (hlt : q < p) :
    u.expansionSteps p = (p, true) :: u.expansionSteps q := by
  have hinside : u.isMacro p = true := by
    rw [isMacro, h]
    rfl
  rw [expansionSteps, expansionChain_of_link h hlt, List.map_cons, hinside]
  rfl

theorem expansionSteps_of_end {p : Nat} (h : u.expansionLink? p = none) :
    u.expansionSteps p = [(p, false)] := by
  rw [expansionSteps, expansionChain_of_end h, List.map_singleton, (isMacro_eq_false_iff p).2 h]

/-- Only the last step of the chain is outside macros, and it is where the loop over the expansion
links ends. -/
theorem exists_expansionSteps_eq (hu : u.LinksDecrease) (p : Nat) :
    ∃ inner : List Nat,
      u.expansionSteps p = inner.map (fun q => (q, true)) ++ [(u.expansionRoot p, false)] := by
  induction p using Nat.strongRecOn with
  | ind p ih =>
    cases hlink : u.expansionLink? p with
    | none =>
      refine ⟨[], ?_⟩
      rw [expansionSteps_of_end hlink, expansionRoot.eq_def, hlink]
      rfl
    | some q =>
      have hlt : q < p := ExpansionLink.lt hu p q hlink
      obtain ⟨inner, hinner⟩ := ih q hlt
      have hmem : q ∈ u.expansionChain p := (mem_expansionChain_iff hu p q).2 (.single hlink)
      refine ⟨p :: inner, ?_⟩
      rw [expansionSteps_of_link hlink hlt, hinner, expansionRoot_of_mem hu hmem]
      rfl

/-- The list of steps leads outwards: the positions are those of the chain, and only the last is
outside of macros. -/
theorem LinksDecrease.outwards (hu : u.LinksDecrease) (p : Nat) :
    u.Outwards p (u.expansionSteps p) where
  starts := by
    rw [map_fst_expansionSteps]
    exact head?_expansionChain p
  linked := by
    rw [map_fst_expansionSteps]
    exact isChain_expansionChain hu p
  decreasing := by
    rw [map_fst_expansionSteps]
    exact pairwise_expansionChain hu p
  ends := exists_expansionSteps_eq hu p

/-- Asked for one step after another, a position gives out the list. -/
theorem givesOut_expansionSteps (hu : u.LinksDecrease) (p : Nat) :
    GivesOut u.outward (some p) (u.expansionSteps p) := by
  induction p using Nat.strongRecOn with
  | ind p ih =>
    cases hlink : u.expansionLink? p with
    | none =>
      -- The iterator has found nothing ahead, and is exhausted after this step.
      have hnext : u.outward (some p) = some ((p, false), none) := by simp [outward, hlink]
      rw [expansionSteps_of_end hlink]
      exact .more hnext (.exhausted rfl)
    | some q =>
      have hlt : q < p := ExpansionLink.lt hu p q hlink
      have hnext : u.outward (some p) = some ((p, true), some q) := by simp [outward, hlink]
      rw [expansionSteps_of_link hlink hlt]
      exact .more hnext (ih q hlt)

/-- The iterator gives out the steps of the chain and nothing else. -/
theorem givesOut_iff (hu : u.LinksDecrease) (p : Nat) (steps : List (Nat × Bool)) :
    GivesOut u.outward (some p) steps ↔ steps = u.expansionSteps p := by
  constructor
  · intro h
    exact h.unique (givesOut_expansionSteps hu p)
  · rintro rfl
    exact givesOut_expansionSteps hu p

/-! ## The end of the spelling links -/

theorem isMacro_spelling (hu : u.LinksDecrease) (p : Nat) : u.isMacro (u.spelling p) = false := by
  rw [← expansionRoot_spelling hu]
  exact isMacro_expansionRoot hu _

theorem spelling_of_not_isMacro {p : Nat} (h : u.isMacro p = false) : u.spelling p = p := by
  have hnone : u.spellingLink? p = none := by
    rw [Option.eq_none_iff_forall_ne_some]
    intro q hq
    -- A position with a spelling link has an expansion link as well.
    obtain ⟨e, he⟩ := (u.spellingLink?_eq_some_iff p q).1 hq
    have hlink := (u.expansionLink?_eq_some_iff p e).2 ⟨q, he⟩
    rw [(isMacro_eq_false_iff p).1 h] at hlink
    cases hlink
  rw [spelling.eq_def, hnone]

/-- Where the spelling links end is where the text was typed. -/
theorem LinksDecrease.spells (hu : u.LinksDecrease) (p : Nat) : u.Spells p (u.spelling p) where
  endsAt := (endsAt_spelling_iff hu p _).2 rfl
  fixed := spelling_of_not_isMacro (isMacro_spelling hu p)
  outside := isMacro_spelling hu p
  le := ((endsAt_spelling_iff hu p _).2 rfl).le (SpellingLink.lt hu)
  eq_iff := by
    constructor
    · intro h
      rw [← h]
      exact isMacro_spelling hu p
    · exact spelling_of_not_isMacro

/-! ## What is found at the ends -/

/-- Where a position is reported depends on the end of its expansion links only. -/
theorem presumedLocation?_congr {p q : Nat} (h : u.expansionRoot q = u.expansionRoot p) :
    u.presumedLocation? q = u.presumedLocation? p := by
  rw [presumedLocation?, h, presumedLocation?]

theorem inSystemHeader_congr {p q : Nat} (h : u.expansionRoot q = u.expansionRoot p) :
    u.inSystemHeader q = u.inSystemHeader p := by
  rw [inSystemHeader, h, inSystemHeader]

namespace WellFormed

variable (hu : u.WellFormed)

include hu

/-- A position is reported nowhere exactly if its expansion links end in no source text. -/
theorem presumedLocation?_eq_none_iff {p : Nat} (hp : p < u.positions.size) :
    u.presumedLocation? p = none ↔ u.positions[u.expansionRoot p]? = some .invalid := by
  have hroot := expansionRoot_lt_size hu.linksDecrease hp
  rw [presumedLocation?]
  rcases inFile_or_invalid hroot (isMacro_expansionRoot hu.linksDecrease p) with
    ⟨file, line, column, h⟩ | h
  · -- The reference to the file leads to one, so that there is a name to report.
    have hfile : file < u.files.size := hu.file_lt h
    simp [h, hfile]
  · simp [h]

/-- The text at a position was typed in a file exactly if its spelling links end in one. -/
theorem isSome_fileName?_iff {p : Nat} (hp : p < u.positions.size) :
    (u.fileName? p).isSome = true ↔
      ∃ file line column, u.positions[u.spelling p]? = some (.inFile file line column) := by
  have hspelling := spelling_lt_size hu.linksDecrease hp
  have hnone : u.fileName? p = none ↔ u.positions[u.spelling p]? = some .invalid := by
    rw [fileName?, Option.map_eq_none_iff, hu.presumedLocation?_eq_none_iff hspelling,
      expansionRoot_spelling hu.linksDecrease]
  rw [Option.isSome_iff_ne_none, ne_eq, hnone]
  rcases inFile_or_invalid hspelling (isMacro_spelling hu.linksDecrease p) with
    ⟨file, line, column, h⟩ | h
  · simp [h]
  · simp [h]

end WellFormed

/-! ## What the answers depend on -/

namespace SameSpellings

variable {v : SourceUnit} (h : SameSpellings u v)

include h

theorem positions_cases (p : Nat) :
    v.positions[p]? = u.positions[p]? ∨
      ∃ spelling e e', v.positions[p]? = some (.inMacro spelling e) ∧
        u.positions[p]? = some (.inMacro spelling e') := by
  apply Position.forgetExpansion_cases
  rw [← Array.getElem?_map, h.positions, Array.getElem?_map]

theorem spellingLink?_eq (p : Nat) : v.spellingLink? p = u.spellingLink? p := by
  rw [spellingLink?, spellingLink?]
  rcases h.positions_cases p with hsame | ⟨spelling, e, e', hv, hu⟩
  · rw [hsame]
  · rw [hv, hu]

theorem spelling_eq (p : Nat) : v.spelling p = u.spelling p :=
  Extends.walk_congr (spelling.eq_def u) (spelling.eq_def v) (fun q _ => h.spellingLink?_eq q)
    (Nat.lt_succ_self p)

theorem file?_eq (p : Nat) : v.file? p = u.file? p := by
  rw [file?, file?, h.files]
  rcases h.positions_cases p with hsame | ⟨spelling, e, e', hv, hu⟩
  · rw [hsame]
  · rw [hv, hu]

/-- In which file a text was typed does not depend on where macros are expanded. -/
theorem fileName?_eq (hu : u.LinksDecrease) (hv : v.LinksDecrease) (p : Nat) :
    v.fileName? p = u.fileName? p := by
  rw [SourceUnit.fileName?_eq hv, SourceUnit.fileName?_eq hu, h.spelling_eq, h.file?_eq]

end SameSpellings

namespace SameExpansions

variable {v : SourceUnit} (h : SameExpansions u v)

include h

theorem positions_cases (p : Nat) :
    v.positions[p]? = u.positions[p]? ∨
      ∃ s s' expansion, v.positions[p]? = some (.inMacro s expansion) ∧
        u.positions[p]? = some (.inMacro s' expansion) := by
  apply Position.forgetSpelling_cases
  rw [← Array.getElem?_map, h.positions, Array.getElem?_map]

theorem expansionLink?_eq (p : Nat) : v.expansionLink? p = u.expansionLink? p := by
  rw [expansionLink?, expansionLink?]
  rcases h.positions_cases p with hsame | ⟨s, s', expansion, hv, hu⟩
  · rw [hsame]
  · rw [hv, hu]

theorem expansionRoot_eq (p : Nat) : v.expansionRoot p = u.expansionRoot p :=
  Extends.walk_congr (expansionRoot.eq_def u) (expansionRoot.eq_def v)
    (fun q _ => h.expansionLink?_eq q)
    (Nat.lt_succ_self p)

/-- Where a position is reported does not depend on where the texts of macros are spelled. -/
theorem presumedLocation?_eq (p : Nat) : v.presumedLocation? p = u.presumedLocation? p := by
  rw [presumedLocation?, presumedLocation?, h.expansionRoot_eq, h.files]
  rcases h.positions_cases (u.expansionRoot p) with hsame | ⟨s, s', expansion, hv, hu⟩
  · rw [hsame]
  · rw [hv, hu]

end SameExpansions

/-- In a unit that edits can make, as every loaded one, the iterator from a position gives out one
list of steps. These lead from the position outwards to the end of its expansion links, and along
them it is reported at one place and is in a system header throughout or nowhere. Its spelling links
end outside macros. The file in which its text was typed is known exactly if they end in a file,
wherever macros are expanded. It is reported nowhere exactly if its expansion links end in no source
text, wherever the texts of macros are spelled. -/
theorem steps_and_spelling_of_position (hu : u.Reachable) {p : Nat} (hp : p < u.positions.size) :
    (∀ steps, GivesOut u.outward (some p) steps ↔ steps = u.expansionSteps p) ∧
      u.Outwards p (u.expansionSteps p) ∧
      (∀ q b, (q, b) ∈ u.expansionSteps p →
        u.presumedLocation? q = u.presumedLocation? p ∧ u.inSystemHeader q = u.inSystemHeader p) ∧
      u.Spells p (u.spelling p) ∧
      ((u.fileName? p).isSome = true ↔
        ∃ file line column, u.positions[u.spelling p]? = some (.inFile file line column)) ∧
      (∀ v : SourceUnit, v.Reachable → SameSpellings u v → v.fileName? p = u.fileName? p) ∧
      (u.presumedLocation? p = none ↔
        ∃ q, (u.expansionSteps p).getLast? = some (q, false) ∧ u.positions[q]? = some .invalid) ∧
      ∀ v : SourceUnit, v.Reachable → SameExpansions u v →
        v.presumedLocation? p = u.presumedLocation? p := by
  have hwf := hu.wellFormed
  have hlinks := hwf.linksDecrease
  refine ⟨givesOut_iff hlinks p, hlinks.outwards p, ?_, hlinks.spells p,
    hwf.isSome_fileName?_iff hp, ?_, ?_, ?_⟩
  · intro q b hq
    have hmem : q ∈ u.expansionChain p := by
      rw [← map_fst_expansionSteps]
      exact List.mem_map_of_mem hq
    have hroot := expansionRoot_of_mem hlinks hmem
    exact ⟨presumedLocation?_congr hroot, inSystemHeader_congr hroot⟩
  · intro v hv hsame
    exact hsame.fileName?_eq hlinks hv.wellFormed.linksDecrease p
  · -- The last step is at the end of the expansion links, where the place to report is looked up.
    obtain ⟨inner, hsteps⟩ := exists_expansionSteps_eq hlinks p
    rw [hwf.presumedLocation?_eq_none_iff hp, hsteps, List.getLast?_concat]
    constructor
    · intro h
      exact ⟨_, rfl, h⟩
    · rintro ⟨q, hq, h⟩
      cases hq
      exact h
  · intro v _ hsame
    exact hsame.presumedLocation?_eq p

end SourceUnit

/-- A position in a file, one in no source text, and macros in macros. The text of one macro was
typed in the file and it is used nowhere, that of another was typed nowhere and it is used in the
file. The last macro can be given any links. -/
def Snapshot.wound (spelling expansion : UInt64) : Snapshot where
  files := [⟨"chrome/foo.cc", false, none⟩]
  positions := [.inFile 0 3 1, .invalid, .inMacro 1 0, .inMacro 0 1, .inMacro spelling expansion]
  decls := []

theorem SourceUnit.steps_and_spelling_of_position_wound :
    (Snapshot.wound 3 2).load = .ok (Snapshot.wound 3 2).image ∧
      (Snapshot.wound 3 2).image.expansionSteps 4 = [(4, true), (2, true), (0, false)] ∧
      (Snapshot.wound 3 2).image.Spells 4 ((Snapshot.wound 3 2).image.spelling 4) ∧
      (Snapshot.wound 3 3).image.fileName? 4 = (Snapshot.wound 3 2).image.fileName? 4 ∧
      (Snapshot.wound 2 2).image.presumedLocation? 4 =
        (Snapshot.wound 3 2).image.presumedLocation? 4 ∧
      (Snapshot.wound 3 3).image.presumedLocation? 4 = none := by
  have hreachable : ∀ s e, (Snapshot.wound s e).load = .ok (Snapshot.wound s e).image →
      (Snapshot.wound s e).image.Reachable := fun _ _ h => Snapshot.reachable_of_load h
  obtain ⟨hsteps, -, -, hspells, -, hname, -, hplace⟩ :=
    steps_and_spelling_of_position (hreachable 3 2 rfl) (p := 4) (by decide)
  obtain ⟨hsteps', -, -, -, -, -, hnowhere, -⟩ :=
    steps_and_spelling_of_position (hreachable 3 3 rfl) (p := 4) (by decide)
  have hpositions : ∀ s e, (Snapshot.wound s e).image.positions =
      #[.inFile 0 3 1, .invalid, .inMacro 1 0, .inMacro 0 1, .inMacro s.toNat e.toNat] :=
    fun _ _ => rfl
  refine ⟨rfl, ?_, hspells, hname _ (hreachable 3 3 rfl) ⟨rfl, ?_⟩,
    hplace _ (hreachable 2 2 rfl) ⟨rfl, ?_⟩, ?_⟩
  · exact ((hsteps _).1 (.more rfl (.more rfl (.more rfl (.exhausted rfl))))).symm
  · simp [hpositions, Position.forgetExpansion]
  · simp [hpositions, Position.forgetSpelling]
  · rw [hnowhere, ← (hsteps' _).1 (.more rfl (.more rfl (.more rfl (.exhausted rfl))))]
    exact ⟨1, rfl, rfl⟩

end StyleZones

import Mathlib.Data.Finset.Card
import StyleZones.Policy.Chromium
import StyleZones.Proofs.Unit.Stability
import StyleZones.Proofs.Unit.Strict

/-!
# The search for ignored base classes as a loop

A search through the base classes of a declaration can be made with a list of declarations that are
still to be looked into. Each turn takes a declaration off the list and goes through its base
classes. Those that are records and come up for the first time are marked; the search ends at the
first of them that is a hit, and the others come to the list.

* The loop ends on every unit, circles or not, after one turn for each declaration and two more at
  most, with the answer of `SourceUnit.hasIgnoredBase` (`Worklist.search_eq_some`).
  `Worklist.Invariant` says why: what is marked is reached and is no hit, and everything that is not
  on the list any more has all its base classes marked.
* `SourceUnit.hasIgnoredBase_iff_reaches` puts this together with what the answer means. Since the
  meaning does not mention the order of base classes or how often one is named, neither does the
  answer depend on it.
-/

set_option autoImplicit false

namespace StyleZones

/-- Where a search stands: what has come up so far, and what is still to be looked into. -/
structure Worklist where
  /-- The declarations that have come up, the one from which the search starts included. -/
  marked : Finset Nat
  /-- The declarations to look into, the next one first. -/
  todo : List Nat

namespace Worklist

variable (u : SourceUnit) (hit : Nat → Bool)

/-- Where a search from a declaration starts. -/
def start (r : Nat) : Worklist :=
  ⟨{r}, [r]⟩

/-- Go through base classes. There is no list any more after a hit. -/
def meet : List Nat → Worklist → Option Worklist
  | [], w => some w
  | b :: bs, w =>
      if u.isRecord b = true ∧ b ∉ w.marked then
        if hit b then none else meet bs ⟨insert b w.marked, b :: w.todo⟩
      else meet bs w

/-- One turn of the search. Base classes are gone through from the last one, so that the first comes
off the list first. -/
def turn (w : Worklist) : Option (Worklist ⊕ Bool) :=
  match w.todo with
  | [] => some (.inr false)
  | d :: rest =>
      match meet u hit ((u.bases d).filterMap id).reverse { w with todo := rest } with
      | some next => some (.inl next)
      | none => some (.inr true)

/-! ## One turn -/

/-- How many turns are left at most: one for each declaration on the list, and for each that may
come to it. -/
def rank (w : Worklist) : Nat :=
  (Finset.range u.decls.size \ w.marked).card + w.todo.length

/-- The second list comes of the first by going through base classes without a hit. -/
structure Met (bs : List Nat) (w next : Worklist) : Prop where
  /-- The records are marked. -/
  marked : ∀ b, b ∈ next.marked ↔ b ∈ w.marked ∨ b ∈ bs ∧ u.isRecord b = true
  /-- Those that were not marked before have come to the list. -/
  todo : ∀ b, b ∈ next.todo ↔ b ∈ w.todo ∨ (b ∈ bs ∧ u.isRecord b = true) ∧ b ∉ w.marked
  /-- None of them is a hit. -/
  missed : ∀ b ∈ next.marked, b ∈ w.marked ∨ hit b = false
  /-- What has come to the list may not come to it again. -/
  rank_eq : next.rank u = w.rank u

variable {u hit}

/-- To mark a record and to put it on the list leaves as many turns as before. -/
theorem rank_insert {w : Worklist} {b : Nat} (hrecord : u.isRecord b = true) (hnew : b ∉ w.marked) :
    rank u ⟨insert b w.marked, b :: w.todo⟩ = w.rank u := by
  have hmem : b ∈ Finset.range u.decls.size \ w.marked :=
    Finset.mem_sdiff.2 ⟨Finset.mem_range.2 (SourceUnit.lt_of_isRecord hrecord), hnew⟩
  have hpos := Finset.card_pos.2 ⟨b, hmem⟩
  simp only [rank, Finset.sdiff_insert, Finset.card_erase_of_mem hmem, List.length_cons]
  omega

theorem met_of_meet {bs : List Nat} {w next : Worklist} (h : meet u hit bs w = some next) :
    Met u hit bs w next := by
  induction bs generalizing w with
  | nil =>
    obtain rfl := Option.some.inj h
    exact ⟨by simp, by simp, fun b hb => Or.inl hb, rfl⟩
  | cons b bs ih =>
    rw [meet] at h
    by_cases hnew : u.isRecord b = true ∧ b ∉ w.marked
    · rw [if_pos hnew] at h
      cases hhit : hit b with
      | true => simp [hhit] at h
      | false =>
        -- A record that is met for the first time is marked and put on the list.
        rw [hhit] at h
        have hmet := ih h
        refine ⟨fun c => ?_, fun c => ?_, fun c hc => ?_, ?_⟩
        · rw [hmet.marked c]
          grind
        · rw [hmet.todo c]
          grind
        · rcases hmet.missed c hc with hold | hmiss
          · rcases Finset.mem_insert.1 hold with rfl | hold
            · exact Or.inr hhit
            · exact Or.inl hold
          · exact Or.inr hmiss
        · rw [hmet.rank_eq]
          exact rank_insert hnew.1 hnew.2
    · rw [if_neg hnew] at h
      have hmet := ih h
      refine ⟨fun c => ?_, fun c => ?_, hmet.missed, hmet.rank_eq⟩
      · rw [hmet.marked c]
        grind
      · rw [hmet.todo c]
        grind

theorem exists_hit_of_meet {bs : List Nat} {w : Worklist} (h : meet u hit bs w = none) :
    ∃ b ∈ bs, u.isRecord b = true ∧ b ∉ w.marked ∧ hit b = true := by
  induction bs generalizing w with
  | nil => cases h
  | cons b bs ih =>
    rw [meet] at h
    by_cases hnew : u.isRecord b = true ∧ b ∉ w.marked
    · rw [if_pos hnew] at h
      by_cases hhit : hit b = true
      · exact ⟨b, List.mem_cons_self, hnew.1, hnew.2, hhit⟩
      · rw [if_neg hhit] at h
        obtain ⟨c, hc, hrecord, hmarked, hhit⟩ := ih h
        exact ⟨c, List.mem_cons_of_mem b hc, hrecord,
          fun hold => hmarked (Finset.mem_insert_of_mem hold), hhit⟩
    · rw [if_neg hnew] at h
      obtain ⟨c, hc, hfound⟩ := ih h
      exact ⟨c, List.mem_cons_of_mem b hc, hfound⟩

/-- A declaration names a record as a base class exactly if the record comes up in the turn of the
declaration. -/
theorem derives_iff_mem_reverse (d b : Nat) :
    u.Derives d b ↔ b ∈ ((u.bases d).filterMap id).reverse ∧ u.isRecord b = true := by
  simp [SourceUnit.derives_iff]

/-! ## The whole search -/

/-- What holds before each turn of a search from `r`. -/
structure Invariant (u : SourceUnit) (hit : Nat → Bool) (r : Nat) (w : Worklist) : Prop where
  /-- The search starts with `r` marked. -/
  start_mem : r ∈ w.marked
  /-- What is on the list is marked. -/
  todo_subset : ∀ d ∈ w.todo, d ∈ w.marked
  /-- What is marked is reached. -/
  reached : ∀ d ∈ w.marked, Relation.ReflTransGen u.Derives r d
  /-- What is marked is no hit, but perhaps for `r`. -/
  missed : ∀ d ∈ w.marked, d = r ∨ hit d = false
  /-- What is not on the list any more has all its base classes marked. -/
  closed : ∀ d ∈ w.marked, d ∈ w.todo ∨ ∀ b, u.Derives d b → b ∈ w.marked

theorem invariant_start (r : Nat) : Invariant u hit r (start r) := by
  have hmem : ∀ d, d ∈ (start r).marked ↔ d = r := fun d => Finset.mem_singleton
  refine ⟨(hmem r).2 rfl, fun d hd => (hmem d).2 (List.mem_singleton.1 hd), fun d hd => ?_,
    fun d hd => Or.inl ((hmem d).1 hd), fun d hd => Or.inl (List.mem_singleton.2 ((hmem d).1 hd))⟩
  rw [(hmem d).1 hd]

/-- A turn without a hit keeps the invariant, and uses up one turn. -/
theorem Invariant.turn {r d : Nat} {rest : List Nat} {w next : Worklist} (h : Invariant u hit r w)
    (htodo : w.todo = d :: rest)
    (hmet : Met u hit ((u.bases d).filterMap id).reverse { w with todo := rest } next) :
    Invariant u hit r next ∧ next.rank u < w.rank u := by
  have hd : d ∈ w.marked := h.todo_subset d (htodo ▸ List.mem_cons_self)
  have hmarked : ∀ b, b ∈ next.marked ↔ b ∈ w.marked ∨ u.Derives d b := by
    intro b
    rw [hmet.marked b, derives_iff_mem_reverse]
  have htodo' : ∀ b, b ∈ next.todo ↔ b ∈ rest ∨ u.Derives d b ∧ b ∉ w.marked := by
    intro b
    rw [hmet.todo b, derives_iff_mem_reverse]
  refine ⟨⟨(hmarked r).2 (Or.inl h.start_mem), ?_, ?_, ?_, ?_⟩, ?_⟩
  · intro b hb
    rcases (htodo' b).1 hb with hrest | ⟨hderives, -⟩
    · exact (hmarked b).2 (Or.inl (h.todo_subset b (htodo ▸ List.mem_cons_of_mem d hrest)))
    · exact (hmarked b).2 (Or.inr hderives)
  · intro b hb
    rcases (hmarked b).1 hb with hold | hderives
    · exact h.reached b hold
    · exact (h.reached d hd).tail hderives
  · intro b hb
    rcases hmet.missed b hb with hold | hmiss
    · exact h.missed b hold
    · exact Or.inr hmiss
  · -- A declaration has come to the list, or was on it, or is the one that has just been looked
    -- into.
    intro b hb
    by_cases hnew : b ∈ w.marked
    · rcases h.closed b hnew with hwas | hclosed
      · rw [htodo] at hwas
        rcases List.mem_cons.1 hwas with rfl | hrest
        · exact Or.inr fun c hc => (hmarked c).2 (Or.inr hc)
        · exact Or.inl ((htodo' b).2 (Or.inl hrest))
      · exact Or.inr fun c hc => (hmarked c).2 (Or.inl (hclosed c hc))
    · rcases (hmarked b).1 hb with hold | hderives
      · exact absurd hold hnew
      · exact Or.inl ((htodo' b).2 (Or.inr ⟨hderives, hnew⟩))
  · rw [hmet.rank_eq]
    simp only [rank, htodo, List.length_cons]
    omega

variable (u)

/-- The search ends with the answer, after one turn for each declaration and two more at most. -/
theorem search_eq_some (p : Policy) (r : Nat) :
    loopWithin (turn u (u.isIgnoredBase p)) (u.decls.size + 2) (start r) =
      some (u.hasIgnoredBase p r) := by
  refine loopWithin_eq_some (Invariant u (u.isIgnoredBase p) r) (rank u)
    (fun _ => u.hasIgnoredBase p r) ?_
    (invariant_start r) ?_
  · intro w hw
    unfold turn
    cases htodo : w.todo with
    | nil =>
      -- Everything that is reached is marked, and only the start of the search may be a hit.
      have hall : ∀ b, Relation.ReflTransGen u.Derives r b → b ∈ w.marked := by
        intro b hb
        induction hb with
        | refl => exact hw.start_mem
        | @tail b c _ hbc ih =>
          rcases hw.closed b ih with htodo' | hclosed
          · rw [htodo] at htodo'
            cases htodo'
          · exact hclosed c hbc
      have hanswer : u.hasIgnoredBase p r = false := by
        rw [← Bool.not_eq_true, SourceUnit.hasIgnoredBase_iff]
        rintro ⟨b, hpath, hne, hhit⟩
        rcases hw.missed b (hall b hpath.to_reflTransGen) with rfl | hmiss
        · exact hne rfl
        · rw [hmiss] at hhit
          cases hhit
      rw [hanswer]
      exact Or.inl rfl
    | cons d rest =>
      simp only
      cases hmeet : meet u (u.isIgnoredBase p)
        ((u.bases d).filterMap id).reverse { w with todo := rest } with
      | none =>
        -- The hit is not marked, so it is not the start of the search.
        obtain ⟨b, hb, hrecord, hnew, hhit⟩ := exists_hit_of_meet hmeet
        have hd : Relation.ReflTransGen u.Derives r d :=
          hw.reached d (hw.todo_subset d (htodo ▸ List.mem_cons_self))
        have hanswer : u.hasIgnoredBase p r = true := by
          refine (SourceUnit.hasIgnoredBase_iff p r).2 ⟨b, ?_,
            fun heq => hnew (heq ▸ hw.start_mem), hhit⟩
          exact Relation.TransGen.tail' hd ((derives_iff_mem_reverse d b).2 ⟨hb, hrecord⟩)
        rw [hanswer]
        exact Or.inl rfl
      | some next =>
        obtain ⟨hinv, hrank⟩ := hw.turn htodo (met_of_meet hmeet)
        exact Or.inr ⟨next, rfl, hinv, hrank, trivial⟩
  · have hcard : (Finset.range u.decls.size \ (start r).marked).card ≤ u.decls.size :=
      (Finset.card_le_card Finset.sdiff_subset).trans_eq (Finset.card_range _)
    simp only [rank, start, List.length_singleton] at hcard ⊢
    omega

end Worklist

/-! ## What the answer depends on -/

namespace SourceUnit

/-- The unit without base classes. -/
def bare (u : SourceUnit) : SourceUnit :=
  { u with decls := u.decls.map fun d => { d with bases := [] } }

theorem extends_bare (u : SourceUnit) : u.bare.Extends u where
  decls_le := by simp [bare]
  entity := by
    intro d _
    simp [entity?, bare, Function.comp_def]
  parent := by
    intro d _
    simp only [parent?, bare, Array.getElem?_map]
    cases u.decls[d]? <;> rfl
  bases := by
    intro d _
    simp only [SourceUnit.bases, bare, Array.getElem?_map, Option.map_map]
    cases u.decls[d]? <;> simp
  position := fun p _ => rfl
  file := fun i f hf => ⟨none, by rw [SourceFile.renamed_none]; exact hf⟩

variable {u v : SourceUnit}

/-- Units that differ in their base classes, but name the same ones, have the same ignored base
classes. -/
theorem hasIgnoredBase_of_bare_eq (hbare : u.bare = v.bare)
    (hbases : ∀ d base, base ∈ u.bases d ↔ base ∈ v.bases d) {p : Policy} {r : Nat}
    (h : u.hasIgnoredBase p r = true) : v.hasIgnoredBase p r = true := by
  have hu := u.extends_bare
  have hv : u.bare.Extends v := hbare ▸ v.extends_bare
  have hlt : ∀ {d b}, u.Derives d b → b < u.bare.decls.size := by
    intro d b hdb
    simpa [bare] using Derives.lt hdb
  have hderives : ∀ d b, u.Derives d b → v.Derives d b := by
    intro d b hdb
    obtain ⟨hbase, hrecord⟩ := (u.derives_iff d b).1 hdb
    rw [hu.isRecord_eq (hlt hdb), ← hv.isRecord_eq (hlt hdb)] at hrecord
    exact (v.derives_iff d b).2 ⟨(hbases d _).1 hbase, hrecord⟩
  obtain ⟨b, hpath, hne, hhit⟩ := (hasIgnoredBase_iff p r).1 h
  obtain ⟨m, -, hmb⟩ := Relation.TransGen.tail'_iff.1 hpath
  refine (hasIgnoredBase_iff p r).2 ⟨b, Relation.TransGen.mono hderives r b hpath, hne, ?_⟩
  rwa [hv.isIgnoredBase_eq p (hlt hmb), ← hu.isIgnoredBase_eq p (hlt hmb)]

/-- A declaration of any kind has an ignored base class exactly if another declaration, which is a
record and whose qualified name the policy ignores, is reached from it by one step or more, each to
a known base class that is a record. The search with a list finds this out on every unit, in one
turn for each declaration and two more at most. The answer is the same on every unit that differs
only in the order and the repetition of base classes. -/
theorem hasIgnoredBase_iff_reaches (u : SourceUnit) (p : Policy) (r : Nat) :
    (u.hasIgnoredBase p r = true ↔
      ∃ b, b ≠ r ∧ u.isRecord b = true ∧ p.ignoresBase (u.qualifiedName b) = true ∧
        Relation.TransGen (fun d b => some b ∈ u.bases d ∧ u.isRecord b = true) r b) ∧
    loopWithin (Worklist.turn u fun b => p.ignoresBase (u.qualifiedName b)) (u.decls.size + 2)
      (Worklist.start r) =
      some (u.hasIgnoredBase p r) ∧
    ∀ v : SourceUnit, v.bare = u.bare → (∀ d base, base ∈ v.bases d ↔ base ∈ u.bases d) →
      v.hasIgnoredBase p r = u.hasIgnoredBase p r := by
  have hsteps : u.Derives = fun d b => some b ∈ u.bases d ∧ u.isRecord b = true := by
    funext d b
    exact propext (u.derives_iff d b)
  refine ⟨?_, Worklist.search_eq_some u p r, ?_⟩
  · rw [hasIgnoredBase_iff, hsteps]
    constructor
    · -- That the class is a record is part of the last step to it.
      rintro ⟨b, hpath, hne, hhit⟩
      obtain ⟨m, -, hmb⟩ := Relation.TransGen.tail'_iff.1 hpath
      exact ⟨b, hne, hmb.2, hhit, hpath⟩
    · rintro ⟨b, hne, -, hhit, hpath⟩
      exact ⟨b, hpath, hne, hhit⟩
  · intro v hbare hbases
    rw [Bool.eq_iff_iff]
    exact ⟨hasIgnoredBase_of_bare_eq hbare hbases,
      hasIgnoredBase_of_bare_eq hbare.symm fun d base => (hbases d base).symm⟩

/-- Two classes with the given base classes, beside a class in a namespace. -/
def tangled (first second : List (Option Nat)) : SourceUnit where
  files := #[⟨"a.h", false, none⟩]
  positions := #[.inFile 0 3 1]
  decls := #[Decl.unit, ⟨.nameSpace (some "IPC"), some 0, []⟩,
    ⟨.record (some "NoParams") 0, some 1, []⟩, ⟨.record (some "A") 0, some 0, first⟩,
    ⟨.record (some "B") 0, some 0, second⟩]

/-- The classes derive from each other, from an unknown class and from a namespace, and one of them
from itself and from the class that is ignored. Written in another order and with repetitions, the
base classes are the same. -/
theorem hasIgnoredBase_iff_reaches_tangled :
    (tangled [none, some 4, some 1] [some 3, some 4, some 2]).hasIgnoredBase .chromium 3 = true ∧
      (tangled [some 4, some 4, some 1, none] [some 2, some 3, some 4]).hasIgnoredBase .chromium 3 =
        true := by
  obtain ⟨hmeans, -, hsame⟩ :=
    hasIgnoredBase_iff_reaches (tangled [none, some 4, some 1] [some 3, some 4, some 2]) .chromium 3
  have hreaches :
      (tangled [none, some 4, some 1] [some 3, some 4, some 2]).hasIgnoredBase .chromium 3 =
        true := by
    refine hmeans.2 ⟨2, by decide, by decide, by decide +kernel, .tail (.single (b := 4) ?_) ?_⟩
    · exact ⟨by decide, by decide⟩
    · exact ⟨by decide, by decide⟩
  refine ⟨hreaches, (hsame _ (by simp [tangled, bare]) ?_).trans hreaches⟩
  intro d base
  -- Only the two classes have base classes.
  rcases d with _ | _ | _ | _ | _ | d
  · exact Iff.rfl
  · exact Iff.rfl
  · exact Iff.rfl
  · show base ∈ [some 4, some 4, some 1, none] ↔ base ∈ [none, some 4, some 1]
    grind
  · show base ∈ [some 2, some 3, some 4] ↔ base ∈ [some 3, some 4, some 2]
    grind
  · simp [SourceUnit.bases, tangled]

end SourceUnit

end StyleZones

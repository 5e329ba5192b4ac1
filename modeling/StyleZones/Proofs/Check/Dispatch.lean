import StyleZones.Check.Checker
import StyleZones.Proofs.Snapshot.Position

/-!
# What becomes of the declarations of a snapshot

Whether a declaration is checked is decided on a loaded unit, after two walks over its positions, a
look at file names and two at names of declarations. Here the decision is read off the snapshot.

* `Classifier.Foreign` says when a position belongs to others: it is used in a system file, or was
  typed nowhere, or was typed in a file whose reported name is in the third-party zone.
* `Checker.Dispatched` says what becomes of an entry: the first reason against it that applies, or
  else its zone, its position and itself.
* `Checker.triage_load_iff`: this is what becomes of the declaration after loading.
-/

set_option autoImplicit false

namespace StyleZones

/-! ## Zones of positions -/

namespace Classifier

variable (k : Classifier)

/-- The position belongs to others. -/
def Foreign (s : Snapshot) (p : Nat) : Prop :=
  (∃ f, s.UsedIn p f ∧ f.system = true) ∨ s.TypedNowhere p ∨
    ∃ f, s.TypedIn p f ∧ k.zoneOfName f.reportedName = .thirdParty

variable {s : Snapshot}

/-- Used in no system file, a text that was typed in a file has the zone of the name of this
file. -/
theorem zoneOfPosition_of_typedIn (hs : s.Faultless) {p : Nat} {f : SourceFile}
    (hsystem : ¬ ∃ g, s.UsedIn p g ∧ g.system = true) (hf : s.TypedIn p f) :
    k.zoneOfPosition s.image p = k.zoneOfName f.reportedName := by
  have hheader : ¬ s.image.inSystemHeader p = true := by
    rw [SourceUnit.inSystemHeader_iff]
    rintro ⟨g, hg, hsys⟩
    exact hsystem ⟨g, (Snapshot.usedIn_iff hs p g).2 hg, hsys⟩
  have hname : s.image.fileName? p = some f.reportedName := by
    rw [SourceUnit.fileName?_eq hs.linksDecrease, (Snapshot.typedIn_iff hs p f).1 hf]
    rfl
  rw [zoneOfPosition, if_neg hheader, hname]

/-- A text that was typed nowhere belongs to others. -/
theorem zoneOfPosition_of_typedNowhere (hs : s.Faultless) {p : Nat} (h : s.TypedNowhere p) :
    k.zoneOfPosition s.image p = .thirdParty := by
  have hfile : s.image.file? (s.image.spelling p) = none := by
    rw [SourceUnit.file?, (Snapshot.typedNowhere_iff hs p).1 h]
  have hname : s.image.fileName? p = none := by
    rw [SourceUnit.fileName?_eq hs.linksDecrease, hfile]
    rfl
  rw [zoneOfPosition, hname]
  exact ite_self _

/-- A position of the unit is third-party exactly if it belongs to others. -/
theorem zoneOfPosition_eq_thirdParty_iff (hs : s.Faultless) {p : Nat}
    (hp : p < s.positions.length) :
    k.zoneOfPosition s.image p = .thirdParty ↔ k.Foreign s p := by
  by_cases hsystem : ∃ g, s.UsedIn p g ∧ g.system = true
  · have hheader : s.image.inSystemHeader p = true := by
      obtain ⟨g, hg, hsys⟩ := hsystem
      exact (SourceUnit.inSystemHeader_iff p).2 ⟨g, (Snapshot.usedIn_iff hs p g).1 hg, hsys⟩
    rw [zoneOfPosition, if_pos hheader]
    exact ⟨fun _ => Or.inl hsystem, fun _ => rfl⟩
  · rcases Snapshot.typedIn_or_typedNowhere hs hp with ⟨f, hf⟩ | hnowhere
    · rw [k.zoneOfPosition_of_typedIn hs hsystem hf]
      constructor
      · intro hzone
        exact Or.inr (Or.inr ⟨f, hf, hzone⟩)
      · rintro (h | h | ⟨g, hg, hzone⟩)
        · exact absurd h hsystem
        · -- The spelling links end in one place, which is in a file here.
          have hfile := (Snapshot.typedIn_iff hs p f).1 hf
          rw [SourceUnit.file?, (Snapshot.typedNowhere_iff hs p).1 h] at hfile
          cases hfile
        · rwa [hf.unique hs hg]
    · rw [k.zoneOfPosition_of_typedNowhere hs hnowhere]
      exact ⟨fun _ => Or.inr (Or.inl hnowhere), fun _ => rfl⟩

end Classifier

/-! ## Entries that declare tags -/

namespace DeclEntry

/-- The record or enumeration that an entry declares as declaration `d`, with its name, empty if it
has none, and the place of its position. -/
def tagged? (d : Nat) : DeclEntry → Option (Tag × String × UInt64)
  | .record name _ position _ => some (.classLike d, name, position)
  | .enumeration name _ position => some (.enumeration d, name, position)
  | _ => none

theorem position_of_tagged (e : DeclEntry) {d : Nat} {tag : Tag} {name : String} {p : UInt64}
    (ht : e.tagged? d = some (tag, name, p)) : e.position = some p := by
  cases e <;> simp_all [tagged?, position]

end DeclEntry

theorem nonEmptyName_getD (name : String) : (nonEmptyName name).getD "" = name := by
  unfold nonEmptyName
  by_cases h : name = ""
  · simp [h]
  · simp [h]

namespace Snapshot

variable {s : Snapshot} {i : Nat} {e : DeclEntry}

theorem getElem?_image_decls (he : s.decls[i]? = some e) :
    s.image.decls[i + 1]? = some e.image := by
  simp [image, SourceUnit.ofLists, he]

theorem ofDecl?_image (he : s.decls[i]? = some e) :
    Tag.ofDecl? s.image (i + 1) = (e.tagged? (i + 1)).map (·.1) := by
  rw [Tag.ofDecl?, SourceUnit.entity?, getElem?_image_decls he]
  cases e <;> rfl

theorem position?_image (he : s.decls[i]? = some e) :
    s.image.position? (i + 1) = (e.tagged? (i + 1)).map (·.2.2.toNat) := by
  rw [SourceUnit.position?, getElem?_image_decls he]
  cases e <;> rfl

theorem simpleName_image (he : s.decls[i]? = some e) {tag : Tag} {name : String} {p : UInt64}
    (ht : e.tagged? (i + 1) = some (tag, name, p)) : s.image.simpleName (i + 1) = name := by
  rw [SourceUnit.simpleName, SourceUnit.name?, getElem?_image_decls he]
  cases e with
  | record name' parent position bases =>
    obtain ⟨-, rfl, -⟩ : _ ∧ name' = name ∧ _ := by simpa [DeclEntry.tagged?] using ht
    exact nonEmptyName_getD name'
  | enumeration name' parent position =>
    obtain ⟨-, rfl, -⟩ : _ ∧ name' = name ∧ _ := by simpa [DeclEntry.tagged?] using ht
    exact nonEmptyName_getD name'
  | nameSpace name' parent => cases ht
  | function name' parent => cases ht
  | block parent => cases ht

end Snapshot

/-! ## The decision -/

namespace Checker

variable (c : Checker) (real : RealPath)

/-- What becomes of entry `i` of the snapshot. The cases come in the order in which they are tried:
each but the first is about a record or an enumeration to which the ones before do not apply. -/
inductive Dispatched (s : Snapshot) (i : Nat) (e : DeclEntry) : Disposition → Prop
  /-- It declares neither a record nor an enumeration. -/
  | notATag : e.tagged? (i + 1) = none → Dispatched s i e (.skipped .notATag)
  /-- Its position belongs to others. -/
  | thirdParty {tag : Tag} {name : String} {p : UInt64} :
      e.tagged? (i + 1) = some (tag, name, p) → (c.classifier real).Foreign s p.toNat →
      Dispatched s i e (.skipped .thirdParty)
  /-- Its name is ignored. -/
  | ignoredName {tag : Tag} {name : String} {p : UInt64} :
      e.tagged? (i + 1) = some (tag, name, p) → ¬ (c.classifier real).Foreign s p.toNat →
      name ∈ c.policy.types → Dispatched s i e (.skipped .ignoredName)
  /-- It is a record named as a test matcher. -/
  | matcherSuffix {d : Nat} {name : String} {p : UInt64} :
      e.tagged? (i + 1) = some (.classLike d, name, p) → ¬ (c.classifier real).Foreign s p.toNat →
      name ∉ c.policy.types → "Matcher".toList <:+ name.toList →
      Dispatched s i e (.skipped .matcherSuffix)
  /-- It is checked, in the zone of the file in which it was typed. -/
  | forward {tag : Tag} {name : String} {p : UInt64} {f : SourceFile} :
      e.tagged? (i + 1) = some (tag, name, p) → ¬ (c.classifier real).Foreign s p.toNat →
      name ∉ c.policy.types → ¬ (tag.isClass = true ∧ "Matcher".toList <:+ name.toList) →
      s.TypedIn p.toNat f →
      Dispatched s i e (.forward ((c.classifier real).zoneOfName f.reportedName) p.toNat tag)

variable {s : Snapshot} {i : Nat} {e : DeclEntry}

theorem triage_image_of_not_tagged (he : s.decls[i]? = some e) (ht : e.tagged? (i + 1) = none) :
    c.triage real s.image (i + 1) = .skipped .notATag := by
  rw [triage, Snapshot.ofDecl?_image he, ht]
  rfl

/-- The decision about a record or an enumeration, with the conditions as propositions. -/
theorem triage_image_of_tagged (he : s.decls[i]? = some e) {tag : Tag} {name : String} {p : UInt64}
    (ht : e.tagged? (i + 1) = some (tag, name, p)) :
    c.triage real s.image (i + 1) =
      if (c.classifier real).zoneOfPosition s.image p.toNat = .thirdParty then .skipped .thirdParty
      else if name ∈ c.policy.types then .skipped .ignoredName
      else if tag.isClass = true ∧ "Matcher".toList <:+ name.toList then .skipped .matcherSuffix
      else .forward ((c.classifier real).zoneOfPosition s.image p.toNat) p.toNat tag := by
  have hchecked : ∀ z : Zone, ((!z.isChecked) = true) ↔ z = .thirdParty := by
    intro z
    cases z <;> simp [Zone.isChecked]
  have hignored : c.policy.ignoresType name = true ↔ name ∈ c.policy.types := by
    rw [Policy.ignoresType, List.contains_iff_mem]
  have hmatcher : (tag.isClass && Text.endsWith name matcherSuffix) = true ↔
      tag.isClass = true ∧ "Matcher".toList <:+ name.toList := by
    rw [Bool.and_eq_true, Text.endsWith, List.isSuffixOf_iff_suffix]
    rfl
  rw [triage, Snapshot.ofDecl?_image he, Snapshot.position?_image he,
    Snapshot.simpleName_image he ht, ht]
  simp only [Option.map_some, hchecked, hignored, hmatcher]

/-- What becomes of an entry by the snapshot becomes of its declaration in the unit. -/
theorem triage_image_of_dispatched (hs : s.Faultless) (he : s.decls[i]? = some e) {x : Disposition}
    (h : c.Dispatched real s i e x) : c.triage real s.image (i + 1) = x := by
  -- The zone is compared with the third-party zone in every case but the first.
  have hzone : ∀ {tag : Tag} {name : String} {p : UInt64}, e.tagged? (i + 1) = some (tag, name, p) →
      ((c.classifier real).zoneOfPosition s.image p.toNat = .thirdParty ↔
        (c.classifier real).Foreign s p.toNat) := by
    intro tag name p ht
    exact (c.classifier real).zoneOfPosition_eq_thirdParty_iff hs
      (hs.position_lt he (e.position_of_tagged ht))
  cases h with
  | notATag ht => exact c.triage_image_of_not_tagged real he ht
  | thirdParty ht hforeign =>
    rw [c.triage_image_of_tagged real he ht, if_pos ((hzone ht).2 hforeign)]
  | ignoredName ht hforeign hname =>
    rw [c.triage_image_of_tagged real he ht, if_neg (mt (hzone ht).1 hforeign), if_pos hname]
  | matcherSuffix ht hforeign hname hmatcher =>
    rw [c.triage_image_of_tagged real he ht, if_neg (mt (hzone ht).1 hforeign), if_neg hname,
      if_pos ⟨rfl, hmatcher⟩]
  | forward ht hforeign hname hmatcher hf =>
    have hsystem : ¬ ∃ g, s.UsedIn _ g ∧ g.system = true := fun h => hforeign (Or.inl h)
    rw [c.triage_image_of_tagged real he ht, if_neg (mt (hzone ht).1 hforeign), if_neg hname,
      if_neg hmatcher, (c.classifier real).zoneOfPosition_of_typedIn hs hsystem hf]

/-- Something becomes of every entry. -/
theorem exists_dispatched (hs : s.Faultless) (he : s.decls[i]? = some e) :
    ∃ x, c.Dispatched real s i e x := by
  rcases ht : e.tagged? (i + 1) with _ | ⟨tag, name, p⟩
  · exact ⟨_, .notATag ht⟩
  by_cases hforeign : (c.classifier real).Foreign s p.toNat
  · exact ⟨_, .thirdParty ht hforeign⟩
  by_cases hname : name ∈ c.policy.types
  · exact ⟨_, .ignoredName ht hforeign hname⟩
  by_cases hmatcher : tag.isClass = true ∧ "Matcher".toList <:+ name.toList
  · obtain ⟨hclass, hsuffix⟩ := hmatcher
    cases tag with
    | classLike d => exact ⟨_, .matcherSuffix ht hforeign hname hsuffix⟩
    | enumeration d => cases hclass
  -- A position that was typed nowhere would belong to others.
  rcases Snapshot.typedIn_or_typedNowhere hs (hs.position_lt he (e.position_of_tagged ht)) with
    ⟨f, hf⟩ | hnowhere
  · exact ⟨_, .forward ht hforeign hname hmatcher hf⟩
  · exact absurd (Or.inr (Or.inl hnowhere)) hforeign

/-- Below 2^32 entries in each table, what becomes of the declarations of a loaded unit is read off
the snapshot. -/
theorem triage_load_iff {u : SourceUnit} (ha : s.Addressable) (h : s.load = .ok u)
    (he : s.decls[i]? = some e) (x : Disposition) :
    c.triage real u (i + 1) = x ↔ c.Dispatched real s i e x := by
  obtain ⟨hs, rfl⟩ := (Snapshot.load_eq_ok_iff_image ha u).1 h
  constructor
  · rintro rfl
    -- Only one thing becomes of the entry, so it is the one that was decided.
    obtain ⟨y, hy⟩ := c.exists_dispatched real hs he
    rwa [c.triage_image_of_dispatched real hs he hy]
  · exact c.triage_image_of_dispatched real hs he

/-- An enumeration that a macro typed in a system file declares, used in a file of the project, is
checked. -/
theorem triage_load_mixed :
    Snapshot.mixed.Addressable ∧ Snapshot.mixed.load = .ok Snapshot.mixed.image ∧
      Snapshot.mixed.decls[5]? = some (.enumeration "E" (some 4) 2) ∧
      Dispatched ⟨.empty, {}, []⟩ (fun _ => none) Snapshot.mixed 5 (.enumeration "E" (some 4) 2)
        (.forward .chrome 2 (.enumeration 6)) :=
  ⟨Snapshot.addressable_mixed, rfl, rfl, (triage_load_iff ⟨.empty, {}, []⟩ (fun _ => none)
    Snapshot.addressable_mixed rfl rfl _).1 (by decide +kernel)⟩

end Checker

end StyleZones

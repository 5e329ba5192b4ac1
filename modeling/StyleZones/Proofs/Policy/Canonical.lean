import StyleZones.Check.Checker
import StyleZones.Policy.Chromium
import StyleZones.Proofs.Policy.Extension
import StyleZones.Unit.Edit

/-!
# Policies in canonical form

A policy starts as the built-in one, as the empty one or from given entries, and is then extended
any number of times. An attempt that fails leaves it as it is. Whatever the attempts, the policy
stays in canonical form (`Policy.Canonical`): its lists strictly increase by bytes, and every entry
is well formed.

The form leaves no room for history. The lists hold what they started from and the entries of the
attempts that succeeded (`Policy.attemptAll_joins`), and a canonical policy is determined by its
entries (`Policy.Canonical.eq_of_joins`). So neither the order of these entries nor how they are
spread over attempts, nor how often they are repeated, makes a difference.
`Policy.attemptAll_canonical` puts this together.
-/

set_option autoImplicit false

namespace StyleZones

namespace Listing

variable {α : Type} {text : α → String} {as : List α}

theorem increasing_iff_bytes :
    Increasing text as ↔ as.Pairwise fun a b => Text.bytes (text a) < Text.bytes (text b) := by
  simp only [Increasing, Text.bytes_lt_iff]

theorem pairwise_bytes_insertAll (text : α → String) (as : List α) {bs : List α}
    (h : bs.Pairwise fun a b => Text.bytes (text a) < Text.bytes (text b)) :
    (insertAll text as bs).Pairwise fun a b => Text.bytes (text a) < Text.bytes (text b) :=
  increasing_iff_bytes.1 (increasing_insertAll as (increasing_iff_bytes.2 h))

/-- The first entry of an ordered listing that passes a test is the least one that does. -/
theorem find?_eq_some_iff (h : Increasing text as) {test : α → Bool} {a : α} :
    as.find? test = some a ↔
      a ∈ as ∧ test a = true ∧ ∀ b ∈ as, test b = true → text a ≤ text b := by
  induction as with
  | nil => simp
  | cons c as ih =>
    obtain ⟨hc, has⟩ := List.pairwise_cons.1 h
    rw [List.find?_cons]
    cases htest : test c with
    | true =>
      constructor
      · intro hca
        obtain rfl := Option.some.inj hca
        refine ⟨List.mem_cons_self, htest, fun b hb _ => ?_⟩
        rcases List.mem_cons.1 hb with rfl | hb
        · exact le_refl _
        · exact le_of_lt (hc b hb)
      · rintro ⟨ha, -, hleast⟩
        -- Nothing comes before the first entry, so the least one is the first.
        rcases List.mem_cons.1 ha with rfl | ha
        · rfl
        · exact absurd (hc a ha) (not_lt.2 (hleast c List.mem_cons_self htest))
    | false =>
      rw [ih has]
      constructor
      · rintro ⟨ha, hpass, hleast⟩
        refine ⟨List.mem_cons_of_mem c ha, hpass, fun b hb hb' => ?_⟩
        rcases List.mem_cons.1 hb with rfl | hb
        · rw [htest] at hb'
          cases hb'
        · exact hleast b hb hb'
      · rintro ⟨ha, hpass, hleast⟩
        refine ⟨?_, hpass, fun b hb => hleast b (List.mem_cons_of_mem c hb)⟩
        rcases List.mem_cons.1 ha with rfl | ha
        · rw [htest] at hpass
          cases hpass
        · exact ha

end Listing

namespace Policy

/-! ## The form -/

/-- The lists strictly increase in the order of bytes, directories are bounded by separators, and
names are not empty. -/
structure Canonical (p : Policy) : Prop where
  directories_increasing : p.directories.Pairwise fun a b => Text.bytes a.text < Text.bytes b.text
  types_increasing : p.types.Pairwise fun a b => Text.bytes a < Text.bytes b
  bases_increasing : p.bases.Pairwise fun a b => Text.bytes a < Text.bytes b
  directories_bounded : ∀ m ∈ p.directories,
    2 ≤ m.text.utf8ByteSize ∧ m.text.toList.head? = some '/' ∧ m.text.toList.getLast? = some '/'
  types_named : "" ∉ p.types
  bases_named : "" ∉ p.bases

variable {p q q' : Policy} {e e' : Entries}

theorem canonical_empty : empty.Canonical where
  directories_increasing := List.Pairwise.nil
  types_increasing := List.Pairwise.nil
  bases_increasing := List.Pairwise.nil
  directories_bounded := List.forall_mem_nil _
  types_named := List.not_mem_nil
  bases_named := List.not_mem_nil

theorem canonical_chromium : chromium.Canonical where
  directories_increasing :=
  Listing.increasing_iff_bytes.1 (by unfold Listing.Increasing; decide +kernel)
  types_increasing := Listing.increasing_iff_bytes.1 (by unfold Listing.Increasing; decide +kernel)
  bases_increasing := List.pairwise_singleton _ _
  directories_bounded := fun m _ => (isBounded_iff m.text).1 m.bounded
  types_named := by decide +kernel
  bases_named := by decide +kernel

theorem mem_listed_type {name : String} (h : name ∈ e.types) : Entry.type name ∈ e.listed := by
  simp [Entries.listed, h]

theorem mem_listed_base {name : String} (h : name ∈ e.bases) : Entry.base name ∈ e.listed := by
  simp [Entries.listed, h]

/-- Well-formed entries keep the form. -/
theorem Canonical.united (hp : p.Canonical) (he : e.Valid) : (p.united e).Canonical where
  directories_increasing := Listing.pairwise_bytes_insertAll Marker.text _ hp.directories_increasing
  types_increasing := Listing.pairwise_bytes_insertAll id e.types hp.types_increasing
  bases_increasing := Listing.pairwise_bytes_insertAll id e.bases hp.bases_increasing
  directories_bounded := fun m _ => (isBounded_iff m.text).1 m.bounded
  types_named := by
    intro h
    rcases ((united_joins p e).types "").1 h with hold | hnew
    · exact hp.types_named hold
    · exact he _ (mem_listed_type hnew) rfl
  bases_named := by
    intro h
    rcases ((united_joins p e).bases "").1 h with hold | hnew
    · exact hp.bases_named hold
    · exact he _ (mem_listed_base hnew) rfl

/-! ## Attempts -/

/-- The policy after an attempt to extend it in place, whether it succeeds or fails. -/
def attempt (p : Policy) (e : Entries) : Policy :=
  (p.update e).2

/-- The policy after a row of attempts. -/
def attemptAll (p : Policy) (calls : List Entries) : Policy :=
  calls.foldl attempt p

/-- An attempt with well-formed entries adds them. -/
theorem attempt_of_valid (p : Policy) (he : e.Valid) : p.attempt e = p.united e := by
  rw [attempt, update_eq_vet, if_pos he]

/-- An attempt with an entry that is not well formed leaves the policy as it is: it fails before the
first change. -/
theorem attempt_of_not_valid (p : Policy) (he : ¬ e.Valid) : p.attempt e = p := by
  rw [attempt, update_eq_vet, if_neg he]

/-- What a policy can start from: the built-in lists, no entries, or given entries that are well
formed. -/
inductive Origin : Policy → Prop
  | chromium : Origin .chromium
  | empty : Origin .empty
  | entries {e : Entries} {p : Policy} : ofEntries e = .ok p → Origin p

theorem Origin.canonical (h : p.Origin) : p.Canonical := by
  cases h with
  | chromium => exact canonical_chromium
  | empty => exact canonical_empty
  | entries hp =>
    obtain ⟨he, rfl⟩ := (extend_eq_ok_iff _ _ _).1 hp
    exact canonical_empty.united he

/-- No attempt leads out of the form. -/
theorem Canonical.attemptAll (hp : p.Canonical) (calls : List Entries) :
    (p.attemptAll calls).Canonical := by
  induction calls generalizing p with
  | nil => exact hp
  | cons e calls ih =>
    apply ih
    by_cases he : e.Valid
    · rw [attempt_of_valid p he]
      exact hp.united he
    · rw [attempt_of_not_valid p he]
      exact hp

/-! ## Entries without their history -/

end Policy

namespace Entries

/-- The entries of several attempts taken together. -/
def gathered (calls : List Entries) : Entries where
  directories := calls.flatMap directories
  types := calls.flatMap types
  bases := calls.flatMap bases

/-- The same entries for each list, in whatever order and number. -/
structure SameAs (e e' : Entries) : Prop where
  directories : ∀ text, text ∈ e'.directories ↔ text ∈ e.directories
  types : ∀ name, name ∈ e'.types ↔ name ∈ e.types
  bases : ∀ name, name ∈ e'.bases ↔ name ∈ e.bases

end Entries

namespace Policy

variable {p q q' : Policy} {e e' : Entries}

/-- Joining the entries of one attempt and then those of others is joining them all. -/
theorem Joins.cons {calls : List Entries} (h : p.Joins e q) (h' : q.Joins (.gathered calls) q') :
    p.Joins (.gathered (e :: calls)) q' where
  directories := by
    intro m
    rw [h'.directories, h.directories, or_assoc]
    simp only [Entries.gathered, List.flatMap_cons, List.mem_append]
  types := by
    intro name
    rw [h'.types, h.types, or_assoc]
    simp only [Entries.gathered, List.flatMap_cons, List.mem_append]
  bases := by
    intro name
    rw [h'.bases, h.bases, or_assoc]
    simp only [Entries.gathered, List.flatMap_cons, List.mem_append]

/-- The lists hold what they started from and the entries of the attempts that succeeded. -/
theorem attemptAll_joins (p : Policy) (calls : List Entries) :
    p.Joins (.gathered (calls.filter (·.Valid))) (p.attemptAll calls) := by
  induction calls generalizing p with
  | nil => exact ⟨by simp [attemptAll, Entries.gathered], by simp [attemptAll, Entries.gathered],
      by simp [attemptAll, Entries.gathered]⟩
  | cons e calls ih =>
    have hrun : p.attemptAll (e :: calls) = (p.attempt e).attemptAll calls := rfl
    by_cases he : e.Valid
    · rw [List.filter_cons_of_pos (by simpa using he), hrun, attempt_of_valid p he]
      exact (p.united_joins e).cons (ih _)
    · rw [List.filter_cons_of_neg (by simpa using he), hrun, attempt_of_not_valid p he]
      exact ih p

/-- A policy in canonical form is determined by its entries. -/
theorem Canonical.eq_of_joins (hq : q.Canonical) (hq' : q'.Canonical) (h : p.Joins e q)
    (h' : p.Joins e' q') (hsame : e.SameAs e') : q' = q := by
  have hdirectories : q'.directories = q.directories := by
    refine Listing.eq_of_mem_iff (Listing.increasing_iff_bytes.2 hq'.directories_increasing)
      (Listing.increasing_iff_bytes.2 hq.directories_increasing) fun m => ?_
    rw [h'.directories, h.directories, hsame.directories]
  have htypes : q'.types = q.types := by
    refine Listing.eq_of_mem_iff (Listing.increasing_iff_bytes.2 hq'.types_increasing)
      (Listing.increasing_iff_bytes.2 hq.types_increasing) fun name => ?_
    rw [h'.types, h.types, hsame.types]
  have hbases : q'.bases = q.bases := by
    refine Listing.eq_of_mem_iff (Listing.increasing_iff_bytes.2 hq'.bases_increasing)
      (Listing.increasing_iff_bytes.2 hq.bases_increasing) fun name => ?_
    rw [h'.bases, h.bases, hsame.bases]
  cases q
  cases q'
  cases hdirectories
  cases htypes
  cases hbases
  rfl

/-! ## What follows for checks -/

/-- The marker that is found in a path is the least one that stands there. -/
theorem Canonical.bannedDirectoryIn_eq_some_iff (hp : p.Canonical) (path : String) (m : Marker) :
    p.bannedDirectoryIn path = some m ↔
      m ∈ p.directories ∧ m.text.toList <:+: path.toList ∧
        ∀ m' ∈ p.directories, m'.text.toList <:+: path.toList →
          Text.bytes m.text ≤ Text.bytes m'.text := by
  have hincreasing : Listing.Increasing Marker.text p.directories :=
    Listing.increasing_iff_bytes.2 hp.directories_increasing
  rw [bannedDirectoryIn, Listing.find?_eq_some_iff hincreasing]
  simp only [Marker.occursIn, Text.contains, Text.occurs_iff_isInfix, Text.bytes_le_iff]

theorem bannedDirectoryIn_eq_none_iff (p : Policy) (path : String) :
    p.bannedDirectoryIn path = none ↔ ∀ m ∈ p.directories, ¬ m.text.toList <:+: path.toList := by
  rw [bannedDirectoryIn, List.find?_eq_none]
  simp only [Marker.occursIn, Text.contains, Text.occurs_iff_isInfix]

/-- No reason that looks at names applies to a class or an enumeration without a name. -/
theorem Canonical.triage_anonymous (hp : p.Canonical) (o : Options) (checks : List Check)
    (real : RealPath) {u : SourceUnit} {d position : Nat} {tag : Tag}
    (htag : Tag.ofDecl? u d = some tag) (hposition : u.position? d = some position)
    (hname : u.simpleName d = "")
    (hzone : ((Checker.classifier ⟨p, o, checks⟩ real).zoneOfPosition u position).isChecked =
      true) :
    Checker.triage ⟨p, o, checks⟩ real u d =
      .forward ((Checker.classifier ⟨p, o, checks⟩ real).zoneOfPosition u position) position
        tag := by
  have hignored : p.ignoresType "" = false := by
    rw [Bool.eq_false_iff, ne_eq, ignoresType, List.contains_iff_mem]
    exact hp.types_named
  have hmatcher : Text.endsWith "" Checker.matcherSuffix = false := rfl
  simp [Checker.triage, htag, hposition, hname, hzone, hignored, hmatcher]

/-- The qualified name of a declaration without a name that stands in the unit itself is empty. -/
theorem qualifiedName_anonymous {u : SourceUnit} {d q : Nat} (hparent : u.parent? d = some q)
    (hunit : u.entity? q = some .unit) (hname : u.simpleName d = "") : u.qualifiedName d = "" := by
  have hlabels : u.labelsAround d [""] = [""] := by
    rw [SourceUnit.labelsAround, SourceUnit.scope?, hparent]
    by_cases hlt : q < d
    · simp [hlt, hunit]
    · simp [hlt]
  rw [SourceUnit.qualifiedName, hname, hlabels]
  rfl

/-- Whatever a policy starts from and whichever attempts to extend it succeed, it is in canonical
form. Hence a class or an enumeration without a name is checked wherever its zone is, and a record
without a name in no scope is not an ignored base class. An attempt succeeds exactly if all its
entries are well formed, and then adds them; otherwise it reports the first that is not, directories
before names of types before base classes, and changes nothing. The policy has the entries it
started from and those of the attempts that succeeded, and depends on nothing else about them. In a
path it finds the least marker that stands there. -/
theorem attemptAll_canonical (hp : p.Origin) (calls : List Entries) :
    (p.attemptAll calls).Canonical ∧
    (∀ (o : Options) (checks : List Check) (real : RealPath) (u : SourceUnit) (d position : Nat)
      (tag : Tag), Tag.ofDecl? u d = some tag → u.position? d = some position →
      u.simpleName d = "" →
      ((Checker.classifier ⟨p.attemptAll calls, o, checks⟩ real).zoneOfPosition
        u position).isChecked = true →
      Checker.triage ⟨p.attemptAll calls, o, checks⟩ real u d =
        .forward
          ((Checker.classifier ⟨p.attemptAll calls, o, checks⟩ real).zoneOfPosition u position)
          position tag) ∧
    (∀ (u : SourceUnit) (d q : Nat), u.parent? d = some q → u.entity? q = some .unit →
      u.simpleName d = "" → u.isIgnoredBase (p.attemptAll calls) d = false) ∧
    (∀ e : Entries, ((∃ q, (p.attemptAll calls).extend e = .ok q) ↔ ∀ x ∈ e.listed, x.Valid) ∧
      (∀ q, (p.attemptAll calls).extend e = .ok q →
        p.attemptAll (calls ++ [e]) = q ∧ (p.attemptAll calls).Joins e q) ∧
      ∀ fault, (p.attemptAll calls).extend e = .error fault →
        p.attemptAll (calls ++ [e]) = p.attemptAll calls ∧
          ∃ before x after, e.listed = before ++ x :: after ∧ (∀ y ∈ before, y.Valid) ∧ ¬ x.Valid ∧
            fault = x.error) ∧
    p.Joins (.gathered (calls.filter (·.Valid))) (p.attemptAll calls) ∧
    (∀ calls' : List Entries,
      Entries.SameAs (.gathered (calls.filter (·.Valid))) (.gathered (calls'.filter (·.Valid))) →
      p.attemptAll calls' = p.attemptAll calls) ∧
    ∀ path : String,
      (∀ m, (p.attemptAll calls).bannedDirectoryIn path = some m ↔
        m ∈ (p.attemptAll calls).directories ∧ m.text.toList <:+: path.toList ∧
          ∀ m' ∈ (p.attemptAll calls).directories, m'.text.toList <:+: path.toList →
            Text.bytes m.text ≤ Text.bytes m'.text) ∧
      ((p.attemptAll calls).bannedDirectoryIn path = none ↔
        ∀ m ∈ (p.attemptAll calls).directories, ¬ m.text.toList <:+: path.toList) := by
  have hcanonical : (p.attemptAll calls).Canonical := hp.canonical.attemptAll calls
  have hnext : ∀ e, p.attemptAll (calls ++ [e]) = (p.attemptAll calls).attempt e := by
    intro e
    rw [attemptAll, List.foldl_append]
    rfl
  refine ⟨hcanonical, ?_, ?_, fun e => ⟨?_, ?_, ?_⟩, p.attemptAll_joins calls, ?_,
    fun path => ⟨?_, ?_⟩⟩
  · intro o checks real u d position tag htag hposition hname hzone
    exact hcanonical.triage_anonymous o checks real htag hposition hname hzone
  · intro u d q hparent hunit hname
    rw [SourceUnit.isIgnoredBase, qualifiedName_anonymous hparent hunit hname, Bool.eq_false_iff,
      ne_eq, ignoresBase, List.contains_iff_mem]
    exact hcanonical.bases_named
  · simp only [extend_eq_ok_iff, exists_and_left, exists_eq, and_true, Entries.Valid]
  · intro q hq
    obtain ⟨he, rfl⟩ := (extend_eq_ok_iff _ _ _).1 hq
    rw [hnext, attempt_of_valid _ he]
    exact ⟨rfl, united_joins _ e⟩
  · intro fault hfault
    -- A fault is about an entry that is not valid, so the attempt has changed nothing.
    obtain ⟨before, x, after, hlisted, hbefore, hx, herror⟩ := (extend_eq_error_iff _ _ _).1 hfault
    have he : ¬ e.Valid := fun he => hx (he x (by simp [hlisted]))
    refine ⟨?_, before, x, after, hlisted, hbefore, hx, herror⟩
    rw [hnext, attempt_of_not_valid _ he]
  · intro calls' hsame
    -- Both policies are in order, and a listing in order is determined by its entries.
    exact hcanonical.eq_of_joins (hp.canonical.attemptAll calls') (p.attemptAll_joins calls)
      (p.attemptAll_joins calls') hsame
  · exact hcanonical.bannedDirectoryIn_eq_some_iff path
  · exact bannedDirectoryIn_eq_none_iff _ path

/-- A class without a name, in no scope. -/
def namelessUnit : SourceUnit :=
  SourceUnit.empty.applyAll [.addFile "src/a.h" false, .addPosition 0 3 1, .addRecord 0 "" 0]

/-- The built-in policy, extended once with success between two attempts that fail, is the policy
that comes of the same entries in another order. It forwards a class without a name, and does not
ignore it as a base class. -/
theorem attemptAll_canonical_mixed :
    Origin .chromium ∧
      chromium.attemptAll [⟨["/out/", "nope"], ["Extra"], []⟩,
        ⟨["/out/"], ["B", "A", "B"], ["Base"]⟩,
          ⟨[], [""], []⟩] =
        chromium.attemptAll [⟨[], ["A"], []⟩, ⟨["/out/"], ["B"], ["Base"]⟩] ∧
      Checker.triage ⟨chromium.attemptAll [⟨[], ["A"], []⟩, ⟨["/out/"], ["B"], ["Base"]⟩], {},
        []⟩ (fun _ => none)
        namelessUnit 1 = .forward .chrome 0 (.classLike 1) ∧
      namelessUnit.isIgnoredBase (chromium.attemptAll [⟨[], ["A"], []⟩,
        ⟨["/out/"], ["B"], ["Base"]⟩]) 1 = false ∧
      chromium.extend ⟨["//", "nope"], [""], []⟩ = .error (.unboundedDirectory "nope") ∧
      ∃ before x after, Entries.listed ⟨["//", "nope"], [""], []⟩ = before ++ x :: after ∧
        (∀ y ∈ before, y.Valid) ∧ ¬ x.Valid ∧ PolicyError.unboundedDirectory "nope" = x.error := by
  obtain ⟨-, hforward, hbase, -, -, hsame, -⟩ :=
    attemptAll_canonical .chromium [⟨[], ["A"], []⟩, ⟨["/out/"], ["B"], ["Base"]⟩]
  have hzone :
      (Checker.classifier ⟨chromium.attemptAll [⟨[], ["A"], []⟩, ⟨["/out/"], ["B"], ["Base"]⟩],
        {}, []⟩
      (fun _ => none)).zoneOfPosition namelessUnit 0 = .chrome := by
    decide +kernel
  have hfault :
      chromium.extend ⟨["//", "nope"], [""], []⟩ = .error (.unboundedDirectory "nope") := rfl
  have htriage :=
    hforward {} [] (fun _ => none) namelessUnit 1 0 (.classLike 1) rfl rfl rfl (by rw [hzone]; rfl)
  rw [hzone] at htriage
  obtain ⟨-, -, -, hextend, -⟩ := attemptAll_canonical .chromium []
  refine ⟨.chromium, hsame _ ?_, htriage, hbase namelessUnit 1 0 rfl rfl rfl, hfault,
    ((hextend _).2.2 _ hfault).2⟩
  have hcalls : [⟨["/out/", "nope"], ["Extra"], []⟩, ⟨["/out/"], ["B", "A", "B"], ["Base"]⟩,
      ⟨[], [""], []⟩].filter
      (fun e : Entries => e.Valid) = [⟨["/out/"], ["B", "A", "B"], ["Base"]⟩] := by
    decide +kernel
  have hcalls' :
      [⟨[], ["A"], []⟩, ⟨["/out/"], ["B"], ["Base"]⟩].filter (fun e : Entries => e.Valid) =
      [⟨[], ["A"], []⟩, ⟨["/out/"], ["B"], ["Base"]⟩] := by
    decide +kernel
  rw [hcalls, hcalls']
  constructor
  · intro text
    rfl
  · intro name
    simp only [Entries.gathered, List.flatMap_cons, List.flatMap_nil, List.mem_append,
      List.mem_cons, List.not_mem_nil, or_false]
    tauto
  · intro name
    rfl

end Policy

end StyleZones

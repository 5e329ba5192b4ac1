import StyleZones.Proofs.Path.Runs

/-!
# The two path modes

A file name that the disk does not resolve becomes a path in two ways: as it stands, or with a
separator in front. The separator can only make a directory stand at the front of the path that did
not stand there before (`Path.AtFront`), and every test of the classifier is for some directory. One
of the tests counts against the rendering engine, so that a directory at the front may take a file
name into a zone as well as out of it.

* `Classifier.Parts` lists the ways in which the separator changes the zone, and
  `Classifier.zoneOfPath_slash_ne_iff` says that there are no others.
* `Classifier.modes_agree_but_at_front`: the modes agree where no directory stands at the front.
  This is so for file names that start with a separator themselves, unless a marker starts with two
  of them.
-/

set_option autoImplicit false

namespace StyleZones

/-- With a separator before the path, the directory stands at its front. -/
def Path.AtFront (directory path : String) : Prop :=
  directory.toList <+: ("/" ++ path).toList

instance (directory path : String) : Decidable (Path.AtFront directory path) :=
  inferInstanceAs (Decidable (_ <+: _))

/-- A separator before a path adds what stands at its front, and nothing else. -/
theorem Text.contains_slash_iff (path directory : String) :
    Text.contains ("/" ++ path) directory = true ↔ Path.AtFront directory path ∨
      Text.contains path directory = true := by
  rw [contains, contains, occurs_iff_isInfix, occurs_iff_isInfix, Path.AtFront,
    String.toList_append]
  exact List.infix_cons_iff

theorem Marker.two_le_length (m : Marker) : 2 ≤ m.text.toList.length := by
  obtain ⟨-, -, htext⟩ := m.names_spec
  rw [htext, Path.bounded, String.toList_append, String.toList_append, List.length_append,
    List.length_append]
  have hslash : "/".toList.length = 1 := rfl
  omega

namespace PathMode

variable {real : RealPath} {name : String}

theorem normalize_skip (real : RealPath) (name : String) :
    skip.normalize real name = "/" ++ unifySeparators name := by
  rw [normalize, unifySeparators, ← String.toList_inj]
  simp [unifySeparators]

theorem normalize_resolve (h : real name = none) :
    resolve.normalize real name = unifySeparators name := by
  rw [normalize, h]
  rfl

/-- A separator of either kind at the front of a file name is one at the front of its path. -/
theorem unifySeparators_of_head {c : Char} (hc : c = '/' ∨ c = '\\')
    (h : name.toList.head? = some c) :
    ∃ cs, (unifySeparators name).toList = '/' :: cs := by
  obtain ⟨cs, hcs⟩ := List.head?_eq_some_iff.1 h
  refine ⟨cs.map fun c => if c = '\\' then '/' else c, ?_⟩
  rw [unifySeparators, String.toList_ofList, hcs, List.map_cons]
  rcases hc with rfl | rfl <;> rfl

end PathMode

namespace Classifier

open StyleZones.Path (AtFront)

/-! ## What a separator in front changes -/

/-- The ways in which a separator before a path parts its zone from the zone that it has without. -/
inductive Parts (policy : Policy) (path : String) : Prop
  /-- The former directory of the rendering engine comes to stand at the front. -/
  | webkit : AtFront webkitDirectory path → isBlinkPath path = false → Parts policy path
  /-- The directory of the rendering engine does, and the path is nowhere on its browser side. -/
  | blink : AtFront blinkDirectory path → ¬ AtFront blinkBrowserDirectory path →
      Text.contains path blinkBrowserDirectory = false → isBlinkPath path = false →
        Parts policy path
  /-- The browser side does, and the path was in the rendering engine, though not in its former
  directory. -/
  | browser : AtFront blinkBrowserDirectory path → isBlinkPath path = true →
      Text.contains path webkitDirectory = false → Parts policy path
  /-- A banned directory does, and there is none in the path, nor is it in the rendering engine
  either way. -/
  | banned {m : Marker} : m ∈ policy.directories → AtFront m.text path → isBlinkPath path = false →
      isBlinkPath ("/" ++ path) = false → policy.bannedDirectoryIn path = none → Parts policy path

/-- The directories that the classifier looks for. -/
def watched (policy : Policy) : List String :=
  webkitDirectory :: blinkDirectory :: blinkBrowserDirectory :: policy.directories.map Marker.text

variable {policy : Policy} {path : String}

theorem Parts.exists_atFront (h : Parts policy path) :
    ∃ directory ∈ watched policy, AtFront directory path := by
  cases h with
  | webkit hfront => exact ⟨_, by simp [watched], hfront⟩
  | blink hfront => exact ⟨_, by simp [watched], hfront⟩
  | browser hfront => exact ⟨_, by simp [watched], hfront⟩
  | @banned m hm hfront =>
    have hmem : m.text ∈ policy.directories.map Marker.text := List.mem_map_of_mem hm
    exact ⟨m.text, by simp [watched, hmem], hfront⟩

/-- Of two directories at the front of a path, one is the beginning of the other. -/
theorem not_webkit_of_browser (h : AtFront blinkBrowserDirectory path) :
    ¬ AtFront webkitDirectory path := by
  intro hwebkit
  rcases List.prefix_or_prefix_of_prefix hwebkit h with hle | hle
  · exact absurd hle (by decide)
  · exact absurd hle (by decide)

theorem isBlinkPath_slash_iff (path : String) :
    isBlinkPath ("/" ++ path) = true ↔
      (AtFront webkitDirectory path ∨ Text.contains path webkitDirectory = true) ∨
        ((AtFront blinkDirectory path ∨ Text.contains path blinkDirectory = true) ∧
          ¬ (AtFront blinkBrowserDirectory path ∨
            Text.contains path blinkBrowserDirectory = true)) := by
  rw [isBlinkPath, Bool.or_eq_true, Bool.and_eq_true, Bool.not_eq_true', ← Bool.not_eq_true,
    Text.contains_slash_iff, Text.contains_slash_iff, Text.contains_slash_iff]

theorem isBlinkPath_eq_true_iff (path : String) :
    isBlinkPath path = true ↔ Text.contains path webkitDirectory = true ∨
      (Text.contains path blinkDirectory = true ∧ ¬ Text.contains path blinkBrowserDirectory =
        true) := by
  rw [isBlinkPath, Bool.or_eq_true, Bool.and_eq_true, Bool.not_eq_true', ← Bool.not_eq_true]

theorem isSome_bannedDirectoryIn_slash_iff (policy : Policy) (path : String) :
    (policy.bannedDirectoryIn ("/" ++ path)).isSome = true ↔
      (∃ m ∈ policy.directories, AtFront m.text path) ∨
        (policy.bannedDirectoryIn path).isSome = true := by
  simp only [Policy.bannedDirectoryIn, List.find?_isSome, Marker.occursIn, Text.contains_slash_iff]
  constructor
  · rintro ⟨m, hm, hfront | hin⟩
    · exact .inl ⟨m, hm, hfront⟩
    · exact .inr ⟨m, hm, hin⟩
  · rintro (⟨m, hm, hfront⟩ | ⟨m, hm, hin⟩)
    · exact ⟨m, hm, .inl hfront⟩
    · exact ⟨m, hm, .inr hin⟩

theorem zoneOfPath_eq_blink_iff (policy : Policy) (path : String) :
    zoneOfPath policy path = .blink ↔ isBlinkPath path = true := by
  unfold zoneOfPath
  split_ifs with hblink hbanned <;> simp [hblink]

theorem zoneOfPath_of_not_blink (h : isBlinkPath path = false) :
    zoneOfPath policy path = if (policy.bannedDirectoryIn path).isSome then
      .thirdParty else .chrome := by
  rw [zoneOfPath, h]
  rfl

/-- Paths of which only one is in the rendering engine are in different zones. -/
theorem zoneOfPath_ne_of_isBlinkPath_ne (policy : Policy) {p q : String}
    (h : isBlinkPath p ≠ isBlinkPath q) :
    zoneOfPath policy p ≠ zoneOfPath policy q := by
  intro heq
  apply h
  rw [Bool.eq_iff_iff, ← zoneOfPath_eq_blink_iff policy, ← zoneOfPath_eq_blink_iff policy, heq]

/-- The separator takes a path into the rendering engine. -/
theorem parts_of_blink_slash (hslash : isBlinkPath ("/" ++ path) = true)
    (hpath : isBlinkPath path = false) :
    Parts policy path := by
  have hnot := Bool.eq_false_iff.1 hpath
  rw [ne_eq, isBlinkPath_eq_true_iff] at hnot
  rcases (isBlinkPath_slash_iff path).1 hslash with (hfront | hin) | ⟨hfront | hin, hbrowser⟩
  · exact .webkit hfront hpath
  · exact absurd (.inl hin) hnot
  · obtain ⟨hfree, hnowhere⟩ := not_or.1 hbrowser
    exact .blink hfront hfree (Bool.eq_false_iff.2 hnowhere) hpath
  · exact absurd (.inr ⟨hin, fun h => hbrowser (.inr h)⟩) hnot

/-- The separator takes a path out of the rendering engine. -/
theorem parts_of_not_blink_slash (hslash : isBlinkPath ("/" ++ path) = false)
    (hpath : isBlinkPath path = true) :
    Parts policy path := by
  have hnot := Bool.eq_false_iff.1 hslash
  rw [ne_eq, isBlinkPath_slash_iff] at hnot
  rcases (isBlinkPath_eq_true_iff path).1 hpath with hin | ⟨hblink, hbrowser⟩
  · exact absurd (.inl (.inr hin)) hnot
  · -- The directory of the rendering engine is still in the path, so that the browser side has come
    -- in.
    have hfront : AtFront blinkBrowserDirectory path := by
      by_contra hfree
      exact hnot (.inr ⟨.inr hblink, not_or.2 ⟨hfree, hbrowser⟩⟩)
    have hwebkit : Text.contains path webkitDirectory = false :=
      Bool.eq_false_iff.2 fun hin => hnot (.inl (.inr hin))
    exact .browser hfront hpath hwebkit

/-- Outside the rendering engine, the separator can only bring in a banned directory. -/
theorem parts_of_banned_slash (hslash : isBlinkPath ("/" ++ path) = false)
    (hpath : isBlinkPath path = false)
    (hne : zoneOfPath policy ("/" ++ path) ≠ zoneOfPath policy path) : Parts policy path := by
  rw [zoneOfPath_of_not_blink hslash, zoneOfPath_of_not_blink hpath] at hne
  have hbanned := isSome_bannedDirectoryIn_slash_iff policy path
  cases hfound : policy.bannedDirectoryIn path with
  | some m =>
    rw [hfound] at hne hbanned
    rw [if_pos (hbanned.2 (.inr rfl))] at hne
    exact absurd rfl hne
  | none =>
    rw [hfound] at hne hbanned
    have hsome : (policy.bannedDirectoryIn ("/" ++ path)).isSome = true := by
      by_contra hnone
      rw [if_neg hnone] at hne
      exact hne rfl
    rcases hbanned.1 hsome with ⟨m, hm, hfront⟩ | hin
    · exact .banned hm hfront hpath hslash hfound
    · cases hin

/-- A separator before a path changes its zone in one of the ways listed, and in no other. -/
theorem zoneOfPath_slash_ne_iff (policy : Policy) (path : String) :
    zoneOfPath policy ("/" ++ path) ≠ zoneOfPath policy path ↔ Parts policy path := by
  constructor
  · intro hne
    -- The separator brings the path into the rendering engine or out of it, or it stays outside and
    -- a banned directory is found.
    cases hslash : isBlinkPath ("/" ++ path) <;> cases hpath : isBlinkPath path
    case false.false => exact parts_of_banned_slash hslash hpath hne
    case false.true => exact parts_of_not_blink_slash hslash hpath
    case true.false => exact parts_of_blink_slash hslash hpath
    case true.true =>
      rw [(zoneOfPath_eq_blink_iff policy _).2 hslash,
        (zoneOfPath_eq_blink_iff policy _).2 hpath] at hne
      exact absurd rfl hne
  · intro h
    cases h with
    | webkit hfront hpath =>
      have hslash := (isBlinkPath_slash_iff path).2 (.inl (.inl hfront))
      exact zoneOfPath_ne_of_isBlinkPath_ne policy (by simp [hslash, hpath])
    | blink hfront hfree hnowhere hpath =>
      have hbrowser := not_or.2 ⟨hfree, Bool.eq_false_iff.1 hnowhere⟩
      have hslash := (isBlinkPath_slash_iff path).2 (.inr ⟨.inl hfront, hbrowser⟩)
      exact zoneOfPath_ne_of_isBlinkPath_ne policy (by simp [hslash, hpath])
    | browser hfront hpath hwebkit =>
      have hslash : isBlinkPath ("/" ++ path) = false := by
        rw [Bool.eq_false_iff, ne_eq, isBlinkPath_slash_iff]
        rintro ((hatFront | hin) | ⟨-, hbrowser⟩)
        · exact not_webkit_of_browser hfront hatFront
        · exact Bool.eq_false_iff.1 hwebkit hin
        · exact hbrowser (.inl hfront)
      exact zoneOfPath_ne_of_isBlinkPath_ne policy (by simp [hslash, hpath])
    | @banned m hm hfront hpath hslash hnone =>
      have hsome := (isSome_bannedDirectoryIn_slash_iff policy path).2 (.inl ⟨m, hm, hfront⟩)
      rw [zoneOfPath_of_not_blink hslash, zoneOfPath_of_not_blink hpath, if_pos hsome, hnone]
      decide

/-! ## The modes -/

/-- The modes part a file name that the disk does not resolve exactly as a separator in front of its
path does. -/
theorem zoneOfName_ne_iff {real : RealPath} {name : String} (h : real name = none) :
    zoneOfName ⟨policy, .skip, real⟩ name ≠ zoneOfName ⟨policy, .resolve, real⟩ name ↔
      name ≠ scratchSpace ∧ Parts policy (PathMode.unifySeparators name) := by
  by_cases hscratch : name = scratchSpace
  · simp [zoneOfName, hscratch]
  · rw [zoneOfName, zoneOfName, if_neg hscratch, if_neg hscratch, normalize, normalize,
      PathMode.normalize_skip, PathMode.normalize_resolve h, zoneOfPath_slash_ne_iff]
    simp [hscratch]

/-- A path that starts with a separator has two of them at its front, which no directory of the
rendering engine has, and a marker only if it starts with both. -/
theorem not_atFront_of_separator
    (hmarkers : ∀ m ∈ policy.directories, ¬ ['/', '/'] <+: m.text.toList) {cs : List Char}
    (hpath : path.toList = '/' :: cs) : ∀ directory ∈ watched policy, ¬ AtFront directory path := by
  have hfront : ∀ {directory : String}, 2 ≤ directory.toList.length → AtFront directory path →
      ['/', '/'] <+: directory.toList := by
    intro directory hlength hdirectory
    rw [AtFront, String.toList_append, hpath] at hdirectory
    exact List.prefix_of_prefix_length_le ⟨cs, rfl⟩ hdirectory hlength
  intro directory hdirectory hatFront
  simp only [watched, List.mem_cons, List.mem_map] at hdirectory
  rcases hdirectory with rfl | rfl | rfl | ⟨m, hm, rfl⟩
  · exact absurd (hfront (by decide) hatFront) (by decide)
  · exact absurd (hfront (by decide) hatFront) (by decide)
  · exact absurd (hfront (by decide) hatFront) (by decide)
  · exact hmarkers m hm (hfront m.two_le_length hatFront)

/-- The modes agree about a file name that the disk does not resolve, unless a directory that the
classifier looks for stands at the front of its path once a separator is put before it; which of
these file names they part is told exactly. So they agree about a file name that starts with a
separator of either kind, under every policy without a marker that starts with two separators, such
as the built-in one. -/
theorem modes_agree_but_at_front (policy : Policy) (real : RealPath) (name : String)
    (h : real name = none) :
    (zoneOfName ⟨policy, .skip, real⟩ name ≠ zoneOfName ⟨policy, .resolve, real⟩ name ↔
      name ≠ scratchSpace ∧ Parts policy (PathMode.unifySeparators name)) ∧
    ((∀ directory ∈ watched policy, ¬ AtFront directory (PathMode.unifySeparators name)) →
      zoneOfName ⟨policy, .resolve, real⟩ name = zoneOfName ⟨policy, .skip, real⟩ name) ∧
    ((∀ m ∈ policy.directories, ¬ ['/', '/'] <+: m.text.toList) →
      name.toList.head? = some '/' ∨ name.toList.head? = some '\\' →
      zoneOfName ⟨policy, .resolve, real⟩ name = zoneOfName ⟨policy, .skip, real⟩ name) ∧
    ∀ m ∈ Policy.chromium.directories, ¬ ['/', '/'] <+: m.text.toList := by
  have hfree : (∀ directory ∈ watched policy, ¬ AtFront directory (PathMode.unifySeparators name)) →
      zoneOfName ⟨policy, .resolve, real⟩ name = zoneOfName ⟨policy, .skip, real⟩ name := by
    intro hfree
    by_contra hne
    obtain ⟨-, hparts⟩ := (zoneOfName_ne_iff h).1 (Ne.symm hne)
    obtain ⟨directory, hdirectory, hfront⟩ := hparts.exists_atFront
    exact hfree directory hdirectory hfront
  refine ⟨zoneOfName_ne_iff h, hfree, ?_, by decide +kernel⟩
  intro hmarkers hhead
  -- With one separator at the front already, a second would make two of them, and no directory that
  -- is looked for starts with two.
  obtain ⟨cs, hcs⟩ : ∃ cs, (PathMode.unifySeparators name).toList = '/' :: cs := by
    rcases hhead with hhead | hhead
    · exact PathMode.unifySeparators_of_head (.inl rfl) hhead
    · exact PathMode.unifySeparators_of_head (.inr rfl) hhead
  exact hfree (not_atFront_of_separator hmarkers hcs)

/-- Under the built-in policy, the modes part a relative file name below a banned directory, and
agree about it once it starts with a separator. A browser side at the front takes a path out of the
rendering engine. -/
theorem modes_agree_but_at_front_sample :
    zoneOfName ⟨.chromium, .skip, fun _ => none⟩ "third_party/missing/a.h" ≠
        zoneOfName ⟨.chromium, .resolve, fun _ => none⟩ "third_party/missing/a.h" ∧
      zoneOfName ⟨.chromium, .resolve, fun _ => none⟩ "\\third_party\\missing\\a.h" =
        zoneOfName ⟨.chromium, .skip, fun _ => none⟩ "\\third_party\\missing\\a.h" ∧
      zoneOfName ⟨.chromium, .skip, fun _ => none⟩
        "third_party/blink/browser/third_party/blink/a.h" ≠
        zoneOfName ⟨.chromium, .resolve, fun _ => none⟩
          "third_party/blink/browser/third_party/blink/a.h" := by
  obtain ⟨hparts, -, -, hmarkers⟩ :=
    modes_agree_but_at_front .chromium (fun _ => none) "third_party/missing/a.h" rfl
  refine ⟨hparts.2 ⟨by decide, ?_⟩, ?_, ?_⟩
  · exact .banned (m := ⟨"/third_party/", by decide⟩) (by decide) (by decide) (by decide)
      (by decide) (by decide +kernel)
  · exact (modes_agree_but_at_front .chromium (fun _ => none)
      "\\third_party\\missing\\a.h" rfl).2.2.1 hmarkers (by decide)
  · apply (modes_agree_but_at_front .chromium (fun _ => none) _ rfl).1.2
    exact ⟨by decide, .browser (by decide) (by decide) (by decide)⟩

end Classifier

end StyleZones

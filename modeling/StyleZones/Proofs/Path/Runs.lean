import Mathlib.Data.List.Infix
import StyleZones.Policy.Chromium
import StyleZones.Proofs.Policy.Extension
import StyleZones.Zone

/-!
# Markers and the pieces of paths

A marker is searched for in a path as a text, letter by letter. Here the search is described by the
pieces between the separators of the path instead. A marker is a run of names with separators around
it, and stands in a path exactly if the names are consecutive pieces of the path, of which the first
and the last piece of the path are none (`Marker.occursIn_iff_runAt`). So everything that is decided
about a path is decided by its inner pieces.

The one fact about texts behind this is `Text.split_append`: a separator parts the pieces before it
from those after it, whatever stands on either side.
-/

set_option autoImplicit false

namespace StyleZones

/-! ## Splitting -/

namespace Text

theorem splitRuns_eq_splitOn (sep : Char) (cs : List Char) : splitRuns sep cs = cs.splitOn sep := by
  induction cs with
  | nil => rfl
  | cons c cs ih =>
    rw [splitRuns, List.splitOn_cons_eq_if_modifyHead, ih]
    by_cases hc : c = sep
    · simp [hc]
    · obtain ⟨run, runs, hruns⟩ := List.exists_cons_of_ne_nil (List.splitOn_ne_nil sep cs)
      simp [hc, hruns]

theorem split_eq_splitOn (sep : Char) (s : String) :
    split sep s = (s.toList.splitOn sep).map String.ofList := by
  rw [split, splitRuns_eq_splitOn]

theorem split_ne_nil (sep : Char) (s : String) : split sep s ≠ [] := by
  simp [split_eq_splitOn, List.splitOn_ne_nil]

/-- A separator parts the pieces before it from the pieces after it. -/
theorem split_append (sep : Char) (s t : String) :
    split sep (s ++ String.singleton sep ++ t) = split sep s ++ split sep t := by
  simp only [split_eq_splitOn, String.toList_append, String.toList_singleton, List.append_assoc,
    List.singleton_append, List.splitOn_append_cons_self, List.map_append]

/-- The pieces, joined by the separator, are the text again. -/
theorem intercalate_split (sep : Char) (s : String) :
    (String.singleton sep).intercalate (split sep s) = s := by
  rw [← String.toList_inj, String.toList_intercalate, split_eq_splitOn, List.map_map]
  simp [Function.comp_def, List.intercalate_splitOn]

/-- Names without the separator, joined by it, are the pieces of what they make. -/
theorem split_intercalate {sep : Char} {names : List String} (hne : names ≠ [])
    (hfree : ∀ name ∈ names, sep ∉ name.toList) :
    split sep ((String.singleton sep).intercalate names) = names := by
  have hsplit :
      (names.map String.toList) = ([sep].intercalate (names.map String.toList)).splitOn sep := by
    refine (List.splitOn_intercalate sep ?_ (by simpa using hne)).symm
    intro cs hcs
    obtain ⟨name, hname, rfl⟩ := List.mem_map.1 hcs
    exact hfree name hname
  rw [split_eq_splitOn, String.toList_intercalate, String.toList_singleton, ← hsplit]
  simp [Function.comp_def]

/-- No piece has the separator in it. -/
theorem not_mem_of_mem_split {sep : Char} {s piece : String} (h : piece ∈ split sep s) :
    sep ∉ piece.toList := by
  rw [split_eq_splitOn, List.mem_map] at h
  obtain ⟨cs, hcs, rfl⟩ := h
  rw [String.toList_ofList]
  generalize s.toList = text at hcs
  induction text generalizing cs with
  | nil =>
    obtain rfl : cs = [] := by simpa using hcs
    exact List.not_mem_nil
  | cons c text ih =>
    rw [List.splitOn_cons_eq_if_modifyHead] at hcs
    by_cases hc : c = sep
    · rcases List.mem_cons.1 (by simpa [hc] using hcs) with rfl | hrest
      · exact List.not_mem_nil
      · exact ih cs hrest
    · obtain ⟨run, runs, hruns⟩ := List.exists_cons_of_ne_nil (List.splitOn_ne_nil sep text)
      rw [hruns] at ih hcs
      rcases List.mem_cons.1 (by simpa [hc] using hcs) with rfl | hrest
      · have hrun := ih run List.mem_cons_self
        simp [hrun, Ne.symm hc]
      · exact ih cs (List.mem_cons_of_mem run hrest)

/-- A text stands in another if that one is the text with something before and after it. -/
theorem contains_iff (s pat : String) :
    contains s pat = true ↔ ∃ before after, s = before ++ pat ++ after := by
  rw [contains, occurs_iff_isInfix]
  constructor
  · rintro ⟨before, after, h⟩
    refine ⟨String.ofList before, String.ofList after, ?_⟩
    rw [← String.toList_inj, ← h]
    simp
  · rintro ⟨before, after, rfl⟩
    exact ⟨before.toList, after.toList, by simp⟩

end Text

/-! ## Runs of pieces -/

namespace Path

/-- The pieces of a path: what stands before, between and after its separators. -/
def pieces (path : String) : List String :=
  Text.split '/' path

/-- The pieces of a path that have a separator on either side: all but the first and the last. -/
def inner (path : String) : List String :=
  (pieces path).tail.dropLast

/-- A run of names with separators before, between and after them. -/
def bounded (names : List String) : String :=
  "/" ++ "/".intercalate names ++ "/"

/-- The names are consecutive pieces from piece `i` on, and neither the first nor the last piece is
among them. -/
def RunAt (names pieces : List String) (i : Nat) : Prop :=
  1 ≤ i ∧ i + names.length ≤ pieces.length - 1 ∧ (pieces.drop i).take names.length = names

/-- The names are consecutive pieces with other pieces on either side. -/
def Flanked (names pieces : List String) : Prop :=
  ∃ before after, before ≠ [] ∧ after ≠ [] ∧ pieces = before ++ names ++ after

theorem exists_runAt_iff {names : List String} (hne : names ≠ []) (pieces : List String) :
    (∃ i, RunAt names pieces i) ↔ Flanked names pieces := by
  have hlength : 0 < names.length := List.length_pos_of_ne_nil hne
  constructor
  · rintro ⟨i, hi, hbound, hrun⟩
    refine ⟨pieces.take i, pieces.drop (i + names.length), ?_, ?_, ?_⟩
    · rw [← List.length_pos_iff, List.length_take]
      omega
    · rw [← List.length_pos_iff, List.length_drop]
      omega
    · have hrest : names ++ pieces.drop (i + names.length) = pieces.drop i := by
        rw [← List.drop_drop]
        nth_rewrite 1 [← hrun]
        exact List.take_append_drop _ _
      rw [List.append_assoc, hrest, List.take_append_drop]
  · rintro ⟨before, after, hbefore, hafter, rfl⟩
    have hb := List.length_pos_of_ne_nil hbefore
    have ha := List.length_pos_of_ne_nil hafter
    refine ⟨before.length, hb, ?_, ?_⟩
    · simp only [List.length_append]
      omega
    · rw [List.append_assoc, List.drop_left, List.take_left]

theorem infix_inner_iff {names : List String} (hne : names ≠ []) (pieces : List String) :
    names <:+: pieces.tail.dropLast ↔ Flanked names pieces := by
  constructor
  · rintro ⟨before, after, hrun⟩
    -- There is a run inside, so there are a first and a last piece around it.
    obtain ⟨first, rest, rfl⟩ : ∃ first rest, pieces = first :: rest := by
      refine List.exists_cons_of_ne_nil fun hnil => ?_
      simp [hnil, hne] at hrun
    obtain ⟨middle, last, rfl⟩ : ∃ middle last, rest = middle ++ [last] := by
      refine ⟨_, _, (List.dropLast_concat_getLast fun hnil => ?_).symm⟩
      simp [hnil, hne] at hrun
    obtain rfl : before ++ names ++ after = middle := by simpa using hrun
    exact ⟨first :: before, after ++ [last], by simp, by simp, by simp⟩
  · rintro ⟨before, after, hbefore, hafter, rfl⟩
    obtain ⟨first, before, rfl⟩ := List.exists_cons_of_ne_nil hbefore
    refine ⟨before, after.dropLast, ?_⟩
    rw [List.cons_append, List.cons_append, List.tail_cons, List.dropLast_append_of_ne_nil hafter]

/-- Names without separators stand in a path, bounded by separators, exactly if they are a run of
its inner pieces. -/
theorem contains_bounded_iff {names : List String} (hne : names ≠ [])
    (hfree : ∀ name ∈ names, '/' ∉ name.toList) (path : String) :
    Text.contains path (bounded names) = true ↔ Flanked names (pieces path) := by
  have hslash : "/" = String.singleton '/' := rfl
  rw [Text.contains_iff]
  constructor
  · rintro ⟨before, after, rfl⟩
    refine ⟨pieces before, pieces after, Text.split_ne_nil _ _, Text.split_ne_nil _ _, ?_⟩
    have hpath : before ++ bounded names ++ after =
        before ++ String.singleton '/' ++ (String.singleton '/').intercalate names ++
          String.singleton '/' ++ after := by
      simp only [bounded, hslash, String.append_assoc]
    rw [pieces, hpath, Text.split_append, Text.split_append, Text.split_intercalate hne hfree]
    rfl
  · rintro ⟨before, after, hbefore, hafter, hpieces⟩
    refine ⟨"/".intercalate before, "/".intercalate after, ?_⟩
    calc path = "/".intercalate (before ++ names ++ after) := by
          rw [← hpieces]
          exact (Text.intercalate_split '/' path).symm
      _ = "/".intercalate before ++ bounded names ++ "/".intercalate after := by
          rw [String.intercalate_append_of_ne_nil (by simp [hne]) hafter,
            String.intercalate_append_of_ne_nil hbefore hne]
          simp only [bounded, String.append_assoc]

end Path

/-! ## Markers -/

namespace Marker

/-- The names that a marker runs together. -/
def names (m : Marker) : List String :=
  Path.inner m.text

/-- A text is that of a marker exactly if it is made of names without separators, and at least
one. -/
theorem isBounded_iff_names (text : String) :
    isBounded text = true ↔
      ∃ names, names ≠ [] ∧ (∀ name ∈ names, '/' ∉ name.toList) ∧ text = Path.bounded names := by
  constructor
  · intro h
    obtain ⟨cs, hcs⟩ : ∃ cs, text.toList = '/' :: cs ++ ['/'] := by
      unfold isBounded at h
      split at h
      case h_1 rest htext =>
        obtain ⟨cs, rfl⟩ := List.getLast?_eq_some_iff.1 (beq_iff_eq.1 h)
        exact ⟨cs, htext⟩
      case h_2 => cases h
    refine ⟨Text.split '/' (String.ofList cs), Text.split_ne_nil _ _,
      fun _ => Text.not_mem_of_mem_split, ?_⟩
    have hnames : "/".intercalate (Text.split '/' (String.ofList cs)) = String.ofList cs :=
      Text.intercalate_split '/' (String.ofList cs)
    rw [Path.bounded, hnames, ← String.toList_inj, hcs]
    simp
  · rintro ⟨names, -, -, rfl⟩
    simp [isBounded, Path.bounded]

theorem inner_bounded {names : List String} (hne : names ≠ [])
    (hfree : ∀ name ∈ names, '/' ∉ name.toList) :
    Path.inner (Path.bounded names) = names := by
  have hpieces : Path.pieces (Path.bounded names) = [""] ++ names ++ [""] := by
    have hbounded : Path.bounded names =
        "" ++ String.singleton '/' ++ (String.singleton '/').intercalate names ++
          String.singleton '/' ++ "" := by
      simp [Path.bounded, show "/" = String.singleton '/' from rfl]
    rw [Path.pieces, hbounded, Text.split_append, Text.split_append,
      Text.split_intercalate hne hfree]
    rfl
  rw [Path.inner, hpieces]
  simp

theorem ofText_eq_ok_iff (text : String) (m : Marker) : ofText text = .ok m ↔ m.text = text := by
  unfold ofText
  split_ifs with hbounded
  · rw [Except.ok.injEq, ← text_injective.eq_iff, eq_comm]
  · constructor
    · intro h
      cases h
    · rintro rfl
      exact absurd m.bounded hbounded

/-- What a marker is made of. -/
theorem names_spec (m : Marker) :
    m.names ≠ [] ∧ (∀ name ∈ m.names, '/' ∉ name.toList) ∧ m.text = Path.bounded m.names := by
  obtain ⟨names, hne, hfree, htext⟩ := (isBounded_iff_names m.text).1 m.bounded
  have hnames : m.names = names := by rw [Marker.names, htext, inner_bounded hne hfree]
  rw [hnames]
  exact ⟨hne, hfree, htext⟩

/-- A marker stands in a path exactly if its names are a run of inner pieces of the path. -/
theorem occursIn_iff_isInfix (m : Marker) (path : String) :
    m.occursIn path = true ↔ m.names <:+: Path.inner path := by
  obtain ⟨hne, hfree, htext⟩ := m.names_spec
  rw [occursIn, htext, Path.contains_bounded_iff hne hfree, Path.inner, Path.infix_inner_iff hne]

/-- The same with the places of the pieces. -/
theorem occursIn_iff_runAt (m : Marker) (path : String) :
    m.occursIn path = true ↔ ∃ i, Path.RunAt m.names (Path.pieces path) i := by
  rw [occursIn_iff_isInfix, Path.inner, Path.infix_inner_iff m.names_spec.1,
    Path.exists_runAt_iff m.names_spec.1]

end Marker

/-! ## Zones -/

namespace PathMode

/-- The character separates names in file names as they are reported. -/
def isSeparator (c : Char) : Bool :=
  c = '/' || c = '\\'

/-- To unify separators and to split at the one that is left is to split at both. -/
theorem split_unifySeparators (name : String) :
    Text.split '/' (unifySeparators name) =
      (name.toList.splitOnP isSeparator).map String.ofList := by
  rw [Text.split_eq_splitOn, unifySeparators, String.toList_ofList]
  congr 1
  induction name.toList with
  | nil => rfl
  | cons c cs ih =>
    rw [List.map_cons, List.splitOn_cons_eq_if_modifyHead, List.splitOnP_cons_eq_if_modifyHead, ih]
    by_cases hback : c = '\\'
    · simp [hback, isSeparator]
    · by_cases hslash : c = '/'
      · simp [hslash, isSeparator]
      · simp [hback, hslash, isSeparator]

/-- Without resolving, the pieces of a path are an empty one and those of the file name. -/
theorem pieces_skip (real : RealPath) (name : String) :
    Path.pieces (skip.normalize real name) =
      "" :: (name.toList.splitOnP isSeparator).map String.ofList := by
  rw [Path.pieces, normalize, split_unifySeparators, String.toList_append,
    show "/".toList = ['/'] from rfl, List.singleton_append, List.splitOnP_cons_eq_if_modifyHead]
  rfl

end PathMode

namespace Classifier

/-- A path with such inner pieces lies in the rendering engine. -/
def InBlink (inner : List String) : Prop :=
  ["third_party", "WebKit"] <:+: inner ∨
    (["third_party", "blink"] <:+: inner ∧ ¬ ["third_party", "blink", "browser"] <:+: inner)

instance (inner : List String) : Decidable (InBlink inner) :=
  inferInstanceAs (Decidable (_ ∨ _))

/-- The zone of a path with such inner pieces. -/
inductive ZoneOfPieces (policy : Policy) (inner : List String) : Zone → Prop
  /-- It lies in the rendering engine. -/
  | blink : InBlink inner → ZoneOfPieces policy inner .blink
  /-- It lies in a banned directory, and not in the rendering engine. -/
  | thirdParty {m : Marker} : ¬ InBlink inner → m ∈ policy.directories → m.names <:+: inner →
      ZoneOfPieces policy inner .thirdParty
  /-- It lies in none of them. -/
  | chrome : ¬ InBlink inner → (∀ m ∈ policy.directories, ¬ m.names <:+: inner) →
      ZoneOfPieces policy inner .chrome

theorem isBlinkPath_iff (path : String) : isBlinkPath path = true ↔ InBlink (Path.inner path) := by
  have hruns : ∀ {directory : String} {names : List String},
      directory = Path.bounded names → names ≠ [] → (∀ name ∈ names, '/' ∉ name.toList) →
        (Text.contains path directory = true ↔ names <:+: Path.inner path) := by
    rintro directory names rfl hne hfree
    rw [Path.contains_bounded_iff hne hfree, Path.inner, Path.infix_inner_iff hne]
  have hwebkit :=
    hruns (show webkitDirectory = Path.bounded ["third_party", "WebKit"] by decide) (by decide)
      (by decide)
  have hblink :=
    hruns (show blinkDirectory = Path.bounded ["third_party", "blink"] by decide) (by decide)
      (by decide)
  have hbrowser :=
    hruns (show blinkBrowserDirectory = Path.bounded ["third_party", "blink", "browser"] by decide)
    (by decide) (by decide)
  rw [isBlinkPath, Bool.or_eq_true, Bool.and_eq_true, Bool.not_eq_true', ← Bool.not_eq_true,
    hwebkit, hblink, hbrowser, InBlink]

theorem isSome_bannedDirectoryIn_iff (policy : Policy) (path : String) :
    (policy.bannedDirectoryIn path).isSome = true ↔
      ∃ m ∈ policy.directories, m.names <:+: Path.inner path := by
  rw [Policy.bannedDirectoryIn, List.find?_isSome]
  simp only [Marker.occursIn_iff_isInfix]

/-- The zone of a path is that of its inner pieces. -/
theorem zoneOfPath_eq_iff (policy : Policy) (path : String) (zone : Zone) :
    zoneOfPath policy path = zone ↔ ZoneOfPieces policy (Path.inner path) zone := by
  have hzone : ZoneOfPieces policy (Path.inner path) (zoneOfPath policy path) := by
    unfold zoneOfPath
    by_cases hblink : isBlinkPath path = true
    · rw [if_pos hblink]
      exact .blink ((isBlinkPath_iff path).1 hblink)
    · rw [if_neg hblink]
      have hblink := mt (isBlinkPath_iff path).2 hblink
      by_cases hbanned : (policy.bannedDirectoryIn path).isSome = true
      · rw [if_pos hbanned]
        obtain ⟨m, hm, hrun⟩ := (isSome_bannedDirectoryIn_iff policy path).1 hbanned
        exact .thirdParty hblink hm hrun
      · rw [if_neg hbanned]
        exact .chrome hblink
          fun m hm hrun => hbanned ((isSome_bannedDirectoryIn_iff policy path).2 ⟨m, hm, hrun⟩)
  constructor
  · rintro rfl
    exact hzone
  · -- The cases exclude one another.
    intro h
    generalize zoneOfPath policy path = z at hzone
    cases hzone <;> cases h <;> grind

/-- Zones are decided by the pieces of paths. The pieces of a path have no separators in them and
make the path when joined. A marker is a run of one name or more, and stands in a path exactly if
its names are consecutive pieces of the path that are neither its first nor its last one. The zone
of a file name, but for the name of pasted text, is that of the inner pieces of the path that the
classifier makes of it, whatever the disk says about file names. Without resolving, these are the
pieces of the file name between separators of either kind, but the last one. -/
theorem zoneOfName_decided_by_pieces (k : Classifier) :
    (∀ path, Path.pieces path ≠ [] ∧ (∀ piece ∈ Path.pieces path, '/' ∉ piece.toList) ∧
      "/".intercalate (Path.pieces path) = path) ∧
    (∀ text, (∃ m, Marker.ofText text = .ok m) ↔
      ∃ names, names ≠ [] ∧ (∀ name ∈ names, '/' ∉ name.toList) ∧ text = Path.bounded names) ∧
    (∀ text m, Marker.ofText text = .ok m →
      ∀ names, names ≠ [] → (∀ name ∈ names, '/' ∉ name.toList) →
      text = Path.bounded names → m.names = names ∧
        ∀ path, m.occursIn path = true ↔ ∃ i, Path.RunAt names (Path.pieces path) i) ∧
    (∀ name, name ≠ scratchSpace → ∀ zone,
      k.zoneOfName name = zone ↔ ZoneOfPieces k.policy (Path.inner (k.normalize name)) zone) ∧
    (k.mode = .skip → ∀ name, (Path.pieces (k.normalize name)).head? = some "" ∧
      Path.inner (k.normalize name) =
        ((name.toList.splitOnP fun c => c = '/' || c = '\\').map String.ofList).dropLast) := by
  refine ⟨fun path => ⟨Text.split_ne_nil _ _, fun _ => Text.not_mem_of_mem_split,
    Text.intercalate_split '/' path⟩, ?_, ?_, ?_, ?_⟩
  · -- A text is fit to be a marker if it is bounded, and the names are what is between the bounds.
    intro text
    rw [← Marker.isBounded_iff_names]
    simp only [Marker.ofText_eq_ok_iff]
    constructor
    · rintro ⟨m, rfl⟩
      exact m.bounded
    · intro hbounded
      exact ⟨⟨text, hbounded⟩, rfl⟩
  · rintro text m hm names hne hfree rfl
    have hnames : m.names = names := by
      rw [Marker.names, (Marker.ofText_eq_ok_iff _ m).1 hm, Marker.inner_bounded hne hfree]
    rw [← hnames]
    exact ⟨rfl, m.occursIn_iff_runAt⟩
  · intro name hname zone
    rw [zoneOfName, if_neg hname, zoneOfPath_eq_iff]
  · intro hskip name
    -- The separator that is put in front of the file name makes the first piece empty.
    have hpieces : Path.pieces (k.normalize name) =
        "" :: (name.toList.splitOnP PathMode.isSeparator).map String.ofList := by
      rw [normalize, hskip, PathMode.pieces_skip]
    rw [Path.inner, hpieces]
    exact ⟨rfl, rfl⟩

/-- The browser side of the rendering engine, with separators of both kinds, is left to the banned
directories. A marker of one empty name stands where two separators meet. -/
theorem zoneOfName_decided_by_pieces_browser :
    "src\\third_party/blink\\browser/a.h" ≠ scratchSpace ∧
      Path.inner
        (normalize ⟨.chromium, .skip, fun _ => none⟩ "src\\third_party/blink\\browser/a.h") =
        ["src", "third_party", "blink", "browser"] ∧
      zoneOfName ⟨.chromium, .skip, fun _ => none⟩ "src\\third_party/blink\\browser/a.h" =
        .thirdParty ∧
      ∃ m, Marker.ofText "//" = .ok m ∧ m.occursIn "a//b" = true := by
  obtain ⟨-, hmarkers, hruns, hzone, hskip⟩ :=
    zoneOfName_decided_by_pieces ⟨.chromium, .skip, fun _ => none⟩
  have hname : "src\\third_party/blink\\browser/a.h" ≠ scratchSpace := by decide
  have hinner :
      Path.inner
        (normalize ⟨.chromium, .skip, fun _ => none⟩ "src\\third_party/blink\\browser/a.h") =
      ["src", "third_party", "blink", "browser"] := by
    rw [(hskip rfl _).2]
    decide +kernel
  refine ⟨hname, hinner, (hzone _ hname .thirdParty).2 ?_, ?_⟩
  · rw [hinner]
    exact .thirdParty (m := ⟨"/third_party/", by decide⟩) (by decide) (by decide)
      (by decide +kernel)
  · obtain ⟨m, hm⟩ := (hmarkers "//").2 ⟨[""], by decide, by decide, by decide⟩
    refine ⟨m, hm, ((hruns _ m hm [""] (by decide) (by decide) (by decide)).2 "a//b").2 ⟨1, ?_⟩⟩
    exact ⟨by decide, by decide, by decide⟩

end Classifier

end StyleZones

import StyleZones.Proofs.Order.Location
import StyleZones.Proofs.Path.Runs
import StyleZones.Proofs.Text.Bytes

/-!
# Reading paths

A path is read as a list of components. `Path.Reading` has the laws of doing so, one for each way of
writing a path: what a single name stands for, what a separator at the front is, how a name is added
at the end, and which separators and dots make no difference.

* `Path.reading_components`: the components of a path obey the laws.
* `Path.Reading.unique`: nothing else does, since every path is built up from single names by the
  laws.
* `Path.compareComponents_eq_lt_iff`: paths are in the lexicographic order of their components.
  Components are ordered by `Path.Component.Precedes`, which looks at the bytes of names.
-/

set_option autoImplicit false

namespace StyleZones.Path

/-! ## The laws -/

/-- The text is a name that a path can lead through: it has no separator, and is neither empty nor a
dot. -/
def IsName (name : String) : Prop :=
  '/' ∉ name.toList ∧ name ≠ "" ∧ name ≠ "."

/-- The laws of reading a path as components. -/
structure Reading (read : String → List Component) : Prop where
  /-- The empty path has no components. -/
  empty : read "" = []
  /-- A separator at the front is the root. -/
  root : read "/" = [.root]
  /-- A dot at the front is the directory itself. -/
  here : read "." = [.here]
  /-- Two dots are the directory above. -/
  up : read ".." = [.up]
  /-- Any other name is an entry. -/
  entry : ∀ name, IsName name → name ≠ ".." → read name = [.entry name]
  /-- A name at the end is a further component. Two dots are not taken back by what stands before
  them. -/
  below : ∀ directory name, directory ≠ "" → IsName name →
    read (directory ++ "/" ++ name) = read directory ++ read name
  /-- A separator that follows another makes no difference. -/
  repeated : ∀ before after, read (before ++ "//" ++ after) = read (before ++ "/" ++ after)
  /-- A separator at the end makes no difference, unless it is the root. -/
  trailing : ∀ path, path ≠ "" → read (path ++ "/") = read path
  /-- A dot between two separators makes no difference. -/
  dot : ∀ before after, read (before ++ "/./" ++ after) = read (before ++ "/" ++ after)
  /-- A dot after a separator at the end makes no difference. -/
  finalDot : ∀ path, read (path ++ "/.") = read (path ++ "/")

namespace Reading

variable {f g : String → List Component}

/-- A name below the root directory. -/
theorem belowRoot (hf : Reading f) {name : String} (hname : IsName name) :
    f ("/" ++ name) = .root :: f name := by
  have hpath : f ("" ++ "//" ++ name) = f "/" ++ f name := hf.below "/" name (by decide) hname
  rw [hf.repeated, hf.root] at hpath
  exact hpath

/-- A path that ends in a separator, which is the root if nothing stands before it. -/
theorem slash (hf : Reading f) (hg : Reading g) {path : String} (h : f path = g path) :
    f (path ++ "/") = g (path ++ "/") := by
  by_cases hpath : path = ""
  · rw [hpath]
    exact hf.root.trans hg.root.symm
  · rw [hf.trailing path hpath, hg.trailing path hpath, h]

/-- Single names are read in one way. -/
theorem single (hf : Reading f) (hg : Reading g) {name : String} (hfree : '/' ∉ name.toList) :
    f name = g name := by
  by_cases hempty : name = ""
  · rw [hempty, hf.empty, hg.empty]
  by_cases hdot : name = "."
  · rw [hdot, hf.here, hg.here]
  by_cases hup : name = ".."
  · rw [hup, hf.up, hg.up]
  rw [hf.entry name ⟨hfree, hempty, hdot⟩ hup, hg.entry name ⟨hfree, hempty, hdot⟩ hup]

/-- One more name at the end is read in one way, if the path before it is. -/
theorem further (hf : Reading f) (hg : Reading g) {path name : String} (hfree : '/' ∉ name.toList)
    (h : f path = g path) : f (path ++ "/" ++ name) = g (path ++ "/" ++ name) := by
  by_cases hempty : name = ""
  · rw [hempty, String.append_empty]
    exact slash hf hg h
  by_cases hdot : name = "."
  · have hend : path ++ "/" ++ "." = path ++ "/." := String.append_assoc
    rw [hdot, hend, hf.finalDot, hg.finalDot]
    exact slash hf hg h
  have hname : IsName name := ⟨hfree, hempty, hdot⟩
  by_cases hpath : path = ""
  · rw [hpath, String.empty_append, hf.belowRoot hname, hg.belowRoot hname, single hf hg hfree]
  · rw [hf.below path name hpath hname, hg.below path name hpath hname, h, single hf hg hfree]

/-- There is one way of reading paths that obeys the laws. -/
theorem unique (hf : Reading f) (hg : Reading g) : f = g := by
  -- A path is its pieces with separators between them; they are added one after another at its end.
  have hpieces : ∀ names : List String, (∀ name ∈ names, '/' ∉ name.toList) →
      f ("/".intercalate names) = g ("/".intercalate names) := by
    intro names
    induction names using List.reverseRecOn with
    | nil =>
      intro _
      exact hf.empty.trans hg.empty.symm
    | append_singleton names name ih =>
      intro hfree
      have hname : '/' ∉ name.toList := hfree name (by simp)
      have hnames := ih fun n hn => hfree n (by simp [hn])
      by_cases hnil : names = []
      · rw [hnil, List.nil_append, String.intercalate_singleton]
        exact single hf hg hname
      · rw [String.intercalate_append_of_ne_nil hnil (List.cons_ne_nil _ _),
          String.intercalate_singleton]
        exact further hf hg hname hnames
  funext path
  have hjoin : "/".intercalate (pieces path) = path := Text.intercalate_split '/' path
  rw [← hjoin]
  exact hpieces _ fun _ => Text.not_mem_of_mem_split

end Reading

/-! ## The components obey them -/

/-- The components that the names of a path stand for, where no dot counts. -/
def steps (path : String) : List Component :=
  (pieces path).filterMap step?

/-- The components that the first piece of a path stands for, if the path goes on. -/
def front (first : String) : List Component :=
  if first = "" then [.root] else if first = "." then [.here] else (step? first).toList

/-- The components of what stands before a separator. -/
def lead (path : String) : List Component :=
  if path = "" then [.root] else components path

theorem pieces_slash (a b : String) : pieces (a ++ "/" ++ b) = pieces a ++ pieces b :=
  Text.split_append '/' a b

theorem steps_slash (a b : String) : steps (a ++ "/" ++ b) = steps a ++ steps b := by
  rw [steps, pieces_slash, List.filterMap_append]
  rfl

theorem steps_empty : steps "" = [] := rfl

theorem steps_dot : steps "." = [] := rfl

theorem pieces_of_free {name : String} (h : '/' ∉ name.toList) : pieces name = [name] := by
  have hsplit : Text.split '/' ("/".intercalate [name]) = [name] :=
    Text.split_intercalate (List.cons_ne_nil _ _) (by simpa using h)
  rwa [String.intercalate_singleton] at hsplit

theorem steps_of_isName {name : String} (h : IsName name) :
    steps name = [if name = ".." then .up else .entry name] := by
  rw [steps, pieces_of_free h.1, List.filterMap_cons, List.filterMap_nil, step?, if_neg h.2.1,
    if_neg h.2.2]
  by_cases hup : name = ".."
  · rw [if_pos hup, if_pos hup]
  · rw [if_neg hup, if_neg hup]

/-- Only the first piece of a path can stand for the root or for the directory itself. -/
theorem components_of_pieces {path first : String} {rest : List String}
    (h : pieces path = first :: rest) (hpath : path ≠ "") :
    components path = front first ++ rest.filterMap step? := by
  have hsplit : Text.split '/' path = first :: rest := h
  rw [components, hsplit]
  by_cases hempty : first = ""
  · subst hempty
    cases rest with
    | nil =>
      have hjoin := Text.intercalate_split '/' path
      rw [hsplit] at hjoin
      exact absurd hjoin.symm hpath
    | cons second rest => rfl
  · by_cases hdot : first = "."
    · subst hdot
      rfl
    · rw [front, if_neg hempty, if_neg hdot]
      cases hstep : step? first <;> simp [hempty, hdot, hstep]

theorem components_of_isName {name : String} (h : IsName name) : components name = steps name := by
  rw [components_of_pieces (pieces_of_free h.1) h.2.1, front, if_neg h.2.1, if_neg h.2.2, steps,
    pieces_of_free h.1]
  cases hstep : step? name <;> simp [hstep]

theorem lead_of_pieces {path first : String} {rest : List String}
    (h : pieces path = first :: rest) :
    lead path = front first ++ rest.filterMap step? := by
  by_cases hpath : path = ""
  · subst hpath
    cases h
    rfl
  · rw [lead, if_neg hpath, components_of_pieces h hpath]

/-- A separator parts what decides about the root and the dot at the front from names that only add
components. -/
theorem components_slash (a b : String) : components (a ++ "/" ++ b) = lead a ++ steps b := by
  obtain ⟨first, rest, ha⟩ := List.exists_cons_of_ne_nil (Text.split_ne_nil '/' a)
  have hpieces : pieces (a ++ "/" ++ b) = first :: (rest ++ pieces b) := by
    rw [pieces_slash, pieces, ha]
    rfl
  have hne : a ++ "/" ++ b ≠ "" := by simp
  rw [components_of_pieces hpieces hne, List.filterMap_append, ← List.append_assoc,
    lead_of_pieces ha]
  rfl

/-- The components of a path are a reading of it. -/
theorem reading_components : Reading components where
  empty := by decide
  root := by decide
  here := by decide
  up := by decide
  entry name hname hup := by
    rw [components_of_isName hname, steps_of_isName hname, if_neg hup]
  below directory name hdirectory hname := by
    rw [components_slash, lead, if_neg hdirectory, components_of_isName hname]
  repeated before after := by
    have hpath : before ++ "//" ++ after = before ++ "/" ++ ("" ++ "/" ++ after) := by
      rw [← String.toList_inj]
      simp
    rw [hpath, components_slash, components_slash, steps_slash, steps_empty, List.nil_append]
  trailing path hpath := by
    have hend := components_slash path ""
    rw [String.append_empty, lead, if_neg hpath, steps_empty, List.append_nil] at hend
    exact hend
  dot before after := by
    have hpath : before ++ "/./" ++ after = before ++ "/" ++ ("." ++ "/" ++ after) := by
      rw [← String.toList_inj]
      simp
    rw [hpath, components_slash, components_slash, steps_slash, steps_dot, List.nil_append]
  finalDot path := by
    have hpath : path ++ "/." = path ++ "/" ++ "." := by
      rw [← String.toList_inj]
      simp
    have hend := components_slash path ""
    rw [String.append_empty] at hend
    rw [hpath, components_slash, hend, steps_dot, steps_empty]

/-! ## Their order -/

/-- The order of components. -/
inductive Component.Precedes : Component → Component → Prop
  | root_here : Precedes .root .here
  | root_up : Precedes .root .up
  | root_entry {name : String} : Precedes .root (.entry name)
  | here_up : Precedes .here .up
  | here_entry {name : String} : Precedes .here (.entry name)
  | up_entry {name : String} : Precedes .up (.entry name)
  /-- Entries are in the order of the bytes of their names. -/
  | entries {name other : String} : Text.bytes name < Text.bytes other →
      Precedes (.entry name) (.entry other)

theorem Component.compare_eq_lt_iff (a b : Component) : a.compare b = .lt ↔ a.Precedes b := by
  constructor
  · intro h
    cases a <;> cases b
    case entry.entry x y =>
      apply Precedes.entries
      exact (Text.bytes_lt_iff x y).2 ((compareOfLessAndEq_compares x y).eq_lt.1 h)
    case root.here => exact .root_here
    case root.up => exact .root_up
    case root.entry => exact .root_entry
    case here.up => exact .here_up
    case here.entry => exact .here_entry
    case up.entry => exact .up_entry
    all_goals cases h
  · intro h
    cases h with
    | @entries x y hbytes =>
      exact (compareOfLessAndEq_compares x y).eq_lt.2 ((Text.bytes_lt_iff x y).1 hbytes)
    | root_here | root_up | root_entry | here_up | here_entry | up_entry => rfl

theorem Component.compare_eq_eq_iff (a b : Component) : a.compare b = .eq ↔ a = b := by
  rw [(a.compare_compares b).eq_eq, key_injective.eq_iff]

/-- Paths are in the lexicographic order of their components. -/
theorem compareComponents_eq_lt_iff (as bs : List Component) :
    compareComponents as bs = .lt ↔ List.Lex Component.Precedes as bs := by
  -- The first components decide unless they are equal, and a path comes before what is below it.
  induction as generalizing bs with
  | nil =>
    cases bs with
    | nil =>
      constructor
      · intro h
        cases h
      · intro h
        cases h
    | cons b bs => exact ⟨fun _ => .nil, fun _ => rfl⟩
  | cons a as ih =>
    cases bs with
    | nil =>
      constructor
      · intro h
        cases h
      · intro h
        cases h
    | cons b bs =>
      rw [compareComponents, Ordering.then_eq_lt, a.compare_eq_lt_iff, a.compare_eq_eq_iff, ih]
      constructor
      · rintro (hab | ⟨rfl, htails⟩)
        · exact .rel hab
        · exact .cons htails
      · intro h
        cases h with
        | rel hab => exact .inl hab
        | cons htails => exact .inr ⟨rfl, htails⟩

end StyleZones.Path

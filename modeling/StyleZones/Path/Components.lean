import StyleZones.Text.Search

/-!
# Path components

Paths are compared by what they lead through, not letter by letter. The components of a path are the
names between its separators; a separator at the front is a component of its own, a dot counts only
at the very front, and empty names count nowhere. So `a//b`, `a/./b` and `a/b/` have the same
components, and `a/x` comes before `a-b/x` although the letters say otherwise.

`Path.compare` orders paths lexicographically by their components; a path comes after each of its
beginnings.
-/

set_option autoImplicit false

namespace StyleZones.Path

/-- One step of a path. -/
inductive Component where
  /-- The root directory, at the front of an absolute path. -/
  | root
  /-- The directory itself, at the front of a relative path only. -/
  | here
  /-- The directory above. -/
  | up
  /-- An entry of the directory. -/
  | entry (name : String)
  deriving DecidableEq, Repr

namespace Component

/-- The kinds of component in their order. -/
def rank : Component → Nat
  | .root => 0
  | .here => 1
  | .up => 2
  | .entry _ => 3

/-- Components are ordered by kind, and entries among themselves by name. -/
def compare : Component → Component → Ordering
  | .entry a, .entry b => compareOfLessAndEq a b
  | a, b => compareOfLessAndEq a.rank b.rank

end Component

/-- The step that a name between separators stands for, where a dot does not count. -/
def step? (name : String) : Option Component :=
  if name = "" then none
  else if name = "." then none
  else if name = ".." then some .up
  else some (.entry name)

/-- The components of a path. -/
def components (path : String) : List Component :=
  match Text.split '/' path with
  | [] => []
  | "" :: [] => []
  | "" :: rest => .root :: rest.filterMap step?
  | "." :: rest => .here :: rest.filterMap step?
  | first => first.filterMap step?

/-- Lists of components in lexicographic order. -/
def compareComponents : List Component → List Component → Ordering
  | [], [] => .eq
  | [], _ :: _ => .lt
  | _ :: _, [] => .gt
  | a :: as, b :: bs => (a.compare b).then (compareComponents as bs)

/-- Paths in the order of their components. -/
def compare (a b : String) : Ordering :=
  compareComponents (components a) (components b)

/-- The path of an entry below a directory. An absolute entry stands for itself, and so does an
entry below the empty path. -/
def join (directory entry : String) : String :=
  if entry.toList.head? = some '/' then entry
  else if directory.isEmpty then entry
  else if directory.toList.getLast? = some '/' then directory ++ entry
  else directory ++ "/" ++ entry

end StyleZones.Path

import StyleZones.Disk.Basic
import StyleZones.Path.Components

/-!
# File trees

A file system held in memory: directories, files with their bytes, and symbolic links, each under
the list of names that leads to it from the root. A path is walked name by name: a dot stays, two
dots go up from wherever the walk has come to, and a link is replaced by what it says. A walk may
follow forty links, as many as the systems that the program runs on allow.

* `FileTree.locate` walks a path;
* `FileTree.write`, `FileTree.makeDirectory` and `FileTree.link` change a tree;
* `FileTree.disk` is the tree as a disk, seen from a working directory.
-/

set_option autoImplicit false

namespace StyleZones

/-- An entry of a file tree. -/
inductive Node where
  /-- A directory. -/
  | directory
  /-- A file with its bytes. -/
  | file (content : ByteArray)
  /-- A symbolic link. -/
  | link (target : String)

/-- The names that lead from the root to an entry. -/
abbrev Route := List String

/-- Entries with their routes. The root is a directory without being listed. -/
structure FileTree where
  /-- The entries, in the order in which they came about. -/
  entries : List (Route × Node)

/-- Where a walk has come to. -/
inductive Place where
  /-- A directory. -/
  | directory (route : Route)
  /-- A file and its bytes. -/
  | file (route : Route) (content : ByteArray)
  /-- Nothing yet, in a directory that exists. -/
  | vacant (route : Route)

namespace FileTree

/-- The tree with nothing but its root. -/
def empty : FileTree :=
  ⟨[]⟩

/-- The entry at a route. -/
def node? (t : FileTree) (route : Route) : Option Node :=
  if route.isEmpty then some .directory else t.entries.lookup route

/-- The names in a directory, in the order in which they came about. -/
def children (t : FileTree) (route : Route) : List String :=
  t.entries.filterMap fun e =>
    match e.1.getLast? with
    | some name => if e.1 = route ++ [name] then some name else none
    | none => none

/-! ## Walking -/

/-- How many links a walk may follow. -/
def maxLinks : Nat := 40

/-- Where a path starts: at the root if it starts with a separator, else in the directory `here`. -/
def start (here : Route) (path : String) : Route :=
  if path.toList.head? = some '/' then [] else here

/-- Walk the names `todo` from the directory `here`, following at most `links` links. A link is
replaced by the names of its target, so the walk ends: either a link is used up or a name is. -/
def walk (t : FileTree) (links : Nat) (here : Route) (todo : List String) :
    Except DiskError Place :=
  match todo with
  | [] => .ok (.directory here)
  | name :: rest =>
      if name = "" ∨ name = "." then walk t links here rest
      else if name = ".." then walk t links here.dropLast rest
      else
        match t.node? (here ++ [name]) with
        | none => if rest.isEmpty then .ok (.vacant (here ++ [name])) else .error .missing
        | some .directory => walk t links (here ++ [name]) rest
        | some (.file content) =>
            if rest.isEmpty then .ok (.file (here ++ [name]) content) else .error .notDirectory
        | some (.link target) =>
            match links with
            | 0 => .error .tooManyLinks
            | n + 1 => walk t n (start here target) (Text.split '/' target ++ rest)
termination_by (links, todo.length)

/-- Where a path leads from the working directory. The empty path leads nowhere. -/
def locate (t : FileTree) (here : Route) (path : String) : Except DiskError Place :=
  if path.isEmpty then .error .missing
  else if path.toList.contains '\x00' then
    .error (.other "file name contained an unexpected NUL byte")
  else walk t maxLinks (start here path) (Text.split '/' path)

/-! ## Changing -/

/-- The tree with the entry at a route, in place of what stood there. -/
def set (t : FileTree) (route : Route) (node : Node) : FileTree :=
  if (t.entries.lookup route).isSome then
    ⟨t.entries.map fun e => if e.1 = route then (route, node) else e⟩
  else ⟨t.entries ++ [(route, node)]⟩

/-- The tree with a file at the end of a path. A link there is followed. -/
def write (t : FileTree) (here : Route) (path : String) (content : ByteArray) :
    Except DiskError FileTree := do
  match ← t.locate here path with
  | .directory _ => .error .isDirectory
  | .file route _ => return t.set route (.file content)
  | .vacant route => return t.set route (.file content)

/-- The tree with a directory at the end of a path whose parent exists. -/
def makeOne (t : FileTree) (here : Route) (path : String) : Except DiskError FileTree := do
  match ← t.locate here path with
  | .directory _ => return t
  | .file _ _ => .error .notDirectory
  | .vacant route => return t.set route .directory

/-- The tree with a directory at the end of a path, and with every directory that leads there. -/
def makeDirectory (t : FileTree) (here : Route) (path : String) : Except DiskError FileTree :=
  let names := Text.split '/' path
  (List.range names.length).foldlM
    (fun t n =>
      let beginning := "/".intercalate (names.take (n + 1))
      if beginning.isEmpty then return t else t.makeOne here beginning)
    t

/-- The directory part and the last name of a path. -/
def parentAndName (path : String) : String × String :=
  let names := Text.split '/' path
  ("/".intercalate names.dropLast, names.getLast?.getD "")

/-- The tree with the directories that lead to a path. -/
def makeParents (t : FileTree) (here : Route) (path : String) : Except DiskError FileTree :=
  t.makeDirectory here (parentAndName path).1

/-- The tree with a link at the end of a path whose parent exists. -/
def link (t : FileTree) (here : Route) (path target : String) : Except DiskError FileTree := do
  let (parent, name) := parentAndName path
  match ← t.locate here (if parent.isEmpty then "." else parent) with
  | .directory route => return t.set (route ++ [name]) (.link target)
  | _ => .error .notDirectory

/-! ## The tree as a disk -/

/-- The path of a route. -/
def routePath (route : Route) : String :=
  "/" ++ "/".intercalate route

/-- What a path leads to. -/
def kind (t : FileTree) (here : Route) (path : String) : Option EntryKind :=
  match t.locate here path with
  | .ok (.directory _) => some .directory
  | .ok (.file _ _) => some .file
  | _ => none

/-- The text of the file at the end of a path. -/
def read (t : FileTree) (here : Route) (path : String) : Except DiskError String :=
  match t.locate here path with
  | .error e => .error e
  | .ok (.directory _) => .error .isDirectory
  | .ok (.vacant _) => .error .missing
  | .ok (.file _ content) =>
      match String.fromUTF8? content with
      | some text => .ok text
      | none => .error .notText

/-- The absolute path without links. -/
def real (t : FileTree) (here : Route) : RealPath := fun path =>
  match t.locate here path with
  | .ok (.directory route) => some (routePath route)
  | .ok (.file route _) => some (routePath route)
  | _ => none

/-- The paths below a directory whose last names end in `.json`, down to `levels` levels. Links to
directories are followed; the working directory itself is not written in front of what it holds. -/
def jsonPaths (t : FileTree) (here : Route) : Nat → String → List String
  | 0, _ => []
  | levels + 1, directory =>
      match t.locate here directory with
      | .ok (.directory route) =>
          (t.children route).flatMap fun name =>
            let path := if directory = "." then name else Path.join directory name
            (if Text.endsWith name ".json" then [path] else []) ++ jsonPaths t here levels path
      | _ => []

/-- More levels than a walk that follows at most forty links can go down. -/
def levels (t : FileTree) : Nat :=
  (maxLinks + 1) * (t.entries.length + 1)

/-- Why a file cannot be written at the end of a path. -/
def refusal (t : FileTree) (here : Route) (path : String) : Option DiskError :=
  match t.write here path ByteArray.empty with
  | .ok _ => none
  | .error e => some e

/-- The tree as a disk, seen from a working directory. -/
def disk (t : FileTree) (here : Route) : Disk where
  kind := t.kind here
  read := t.read here
  real := t.real here
  jsonPaths := t.jsonPaths here t.levels
  refusal := t.refusal here

end FileTree

end StyleZones

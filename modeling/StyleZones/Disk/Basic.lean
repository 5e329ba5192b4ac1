import StyleZones.Path.Mode

/-!
# Disks

What the program asks of a file system, as a value. A command is a function of a disk, so everything
it does can be stated of an arbitrary disk; the in-memory tree of `StyleZones.Disk.FileTree` and the
real file system are two of them.

Links are followed by every question.

Two things are left out. A disk lists every directory that it has, where a file system may refuse to
list one. And all names are texts, on the disk as on the command line, where a file system also has
names that are none.
-/

set_option autoImplicit false

namespace StyleZones

/-- Why a file cannot be read or written. -/
inductive DiskError where
  /-- Nothing has that name. -/
  | missing
  /-- A name is used as a directory and is none. -/
  | notDirectory
  /-- A directory is used as a file. -/
  | isDirectory
  /-- Links lead to links without end. -/
  | tooManyLinks
  /-- The contents are not text. -/
  | notText
  /-- Any other refusal, in the words of the file system. -/
  | other (words : String)
  deriving DecidableEq, Repr

namespace DiskError

/-- What is said about a refusal. -/
def message : DiskError → String
  | .missing => "No such file or directory (os error 2)"
  | .notDirectory => "Not a directory (os error 20)"
  | .isDirectory => "Is a directory (os error 21)"
  | .tooManyLinks => "Too many levels of symbolic links (os error 40)"
  | .notText => "stream did not contain valid UTF-8"
  | .other words => words

end DiskError

/-- What stands at the end of a path. -/
inductive EntryKind where
  /-- A regular file. -/
  | file
  /-- A directory. -/
  | directory
  /-- Anything else. -/
  | special
  deriving DecidableEq, Repr

/-- A file system, by its answers. Paths are relative to the working directory unless they start
with a separator. -/
structure Disk where
  /-- What a path leads to, if it leads anywhere. -/
  kind : String → Option EntryKind
  /-- The text of a file. -/
  read : String → Except DiskError String
  /-- The absolute path without links that leads to the same place. -/
  real : RealPath
  /-- The paths below a directory, at any depth, whose last names end in `.json`, whatever they lead
  to. -/
  jsonPaths : String → List String
  /-- Why a file cannot be written at a path, if it cannot. -/
  refusal : String → Option DiskError

namespace Disk

/-- The path leads to a regular file. -/
def isFile (d : Disk) (path : String) : Bool :=
  d.kind path == some .file

/-- The path leads to a directory. -/
def isDirectory (d : Disk) (path : String) : Bool :=
  d.kind path == some .directory

/-- The path leads somewhere. -/
def leads (d : Disk) (path : String) : Bool :=
  (d.kind path).isSome

end Disk

end StyleZones

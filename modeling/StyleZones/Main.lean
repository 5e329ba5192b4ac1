import StyleZones.Command.Inquiry

/-!
# The command line

The outermost layer: it answers the questions of a run from the file system, runs the command on the
answers, and does what the outcome says.
-/

set_option autoImplicit false

namespace StyleZones.Main

/-- A system's error number, which some calls give negated. -/
def errorNumber (code : UInt32) : UInt32 :=
  if code < 0x80000000 then code else 0 - code

/-- A refusal of the file system. -/
def diskError : IO.Error → DiskError
  | .noFileOrDirectory _ _ _ => .missing
  | .inappropriateType _ code details =>
      if errorNumber code = 20 then .notDirectory
      else if errorNumber code = 21 then .isDirectory
      else .other details
  | .invalidArgument _ code details =>
      if errorNumber code = 40 then .tooManyLinks else .other details
  | e => .other (toString e)

/-- What a path leads to. -/
def kindOf (path : String) : IO (Option EntryKind) := do
  match ← (System.mkFilePath [path]).metadata.toBaseIO with
  | .error _ => return none
  | .ok found =>
      match found.type with
      | .file => return some .file
      | .dir => return some .directory
      | _ => return some .special

/-- The text of a file. -/
def textOf (path : String) : IO (Except DiskError String) := do
  match ← (IO.FS.readBinFile ⟨path⟩).toBaseIO with
  | .error e => return .error (diskError e)
  | .ok bytes =>
      match String.fromUTF8? bytes with
      | some text => return .ok text
      | none => return .error .notText

/-- The real path of a name. -/
def realOf (name : String) : IO (Option String) := do
  match ← (IO.FS.realPath ⟨name⟩).toBaseIO with
  | .error _ => return none
  | .ok path => return some path.toString

/-- The paths below a directory whose last names end in `.json`. Links to directories are followed
as far as the system does, and a directory that cannot be listed counts as empty. -/
partial def jsonPathsBelow (directory : String) : IO (List String) := do
  match ← (System.mkFilePath [directory]).readDir.toBaseIO with
  | .error _ => return []
  | .ok entries =>
      let found ← entries.toList.mapM fun entry => do
        let path := if directory = "." then entry.fileName else Path.join directory entry.fileName
        let itself := if Text.endsWith entry.fileName ".json" then [path] else []
        match ← kindOf path with
        | some .directory => return itself ++ (← jsonPathsBelow path)
        | _ => return itself
      return found.flatten

/-- Pairs of questions and answers. -/
def answers {α : Type} (ask : String → IO α) (questions : List String) : IO (List (String × α)) :=
  questions.mapM fun q => return (q, ← ask q)

/-- Pairs of questions and those answers that there are. -/
def someAnswers {α : Type} (ask : String → IO (Option α)) (questions : List String) :
    IO (List (String × α)) := do
  return (← answers ask questions).filterMap fun (q, a) => a.map fun found => (q, found)

/-- Answer the questions of a run. Only regular files are read, and the file given on the command
line. -/
def survey (env : Environment) (o : Overrides) (action : Action) : IO Survey := do
  let paths := Inquiry.paths env o action
  let listings ← answers jsonPathsBelow (Inquiry.searched? action).toList
  let kinds ← someAnswers kindOf (paths ++ listings.flatMap Prod.snd)
  let files := (kinds.filter fun k => k.2 == .file).map Prod.fst
  let texts ← answers textOf (o.config.toList ++ files)
  let s : Survey := { kinds, texts, listings }
  let reals ← someAnswers realOf (Inquiry.names s.disk action)
  return { s with reals }

/-- Report a failure. -/
def fail (f : Failure) : IO UInt32 := do
  IO.eprintln f.report
  return 1

/-- Do what an outcome says: write the file, print, and give the exit status. -/
def conclude (o : Outcome) : IO UInt32 := do
  match o.failure with
  | some f => fail f
  | none =>
      let refused ← match o.written with
        | none => pure none
        | some (path, text) =>
            match ← (IO.FS.writeBinFile ⟨path⟩ text.toUTF8).toBaseIO with
            | .ok _ => pure none
            | .error e => pure (some (diskError e))
      match refused with
      | some e => fail ⟨e.message, []⟩
      | none =>
          IO.print o.output
          if o.status = 2 then IO.eprint Command.usage
          return UInt32.ofNat o.status

/-- Run a command line. -/
def run (args : List String) : IO UInt32 := do
  let env : Environment := {
    configDirectory := ← IO.getEnv "CHROME_STYLE_CONFIG_DIR"
    home := ← IO.getEnv "HOME" }
  let found ← match Invocation.ofArguments? args with
    | some (.run o action) => survey env o action
    | _ => pure {}
  conclude (Command.run found.disk env args)

end StyleZones.Main

/-- Run the program. -/
def main (args : List String) : IO UInt32 :=
  StyleZones.Main.run args

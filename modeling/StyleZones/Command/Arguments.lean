/-!
# Command-line arguments

A command line names a command, possibly with switches before and after it, and the command's
operands. A switch is written long (`--config FILE`, `--config=FILE`) or short (`-c FILE`, `-cFILE`,
`-c=FILE`), and short ones may be run together. Arguments are read from left to right. Each side of
the command's name takes a switch at most once; where both sides give a value, the one after the
name counts. Two dashes end the switches.

`Invocation.ofArguments?` is what a command line asks for; it is nothing if the command line is not
used properly.
-/

set_option autoImplicit false

namespace StyleZones

/-- How reports are printed. -/
inductive Format where
  /-- For people: blocks of lines and a coloured summary. -/
  | text
  /-- For programs: one JSON document. -/
  | json
  /-- One line for each finding. -/
  | compact
  deriving DecidableEq, Repr

namespace Format

/-- The format of that name. -/
def ofName? (s : String) : Option Format :=
  if s = "text" then some .text
  else if s = "json" then some .json
  else if s = "compact" then some .compact
  else none

end Format

/-- A switch of the command line. -/
inductive Switch where
  | verbose
  | config
  | noRealpath
  | warningsAsErrors
  | format
  | force
  | help
  | version
  deriving DecidableEq, Repr

namespace Switch

/-- The long name of a switch. -/
def long : Switch → String
  | .verbose => "verbose"
  | .config => "config"
  | .noRealpath => "no-realpath"
  | .warningsAsErrors => "warnings-as-errors"
  | .format => "format"
  | .force => "force"
  | .help => "help"
  | .version => "version"

/-- The letter of a switch, if it has one. -/
def short : Switch → Option Char
  | .verbose => some 'v'
  | .config => some 'c'
  | .format => some 'f'
  | .help => some 'h'
  | .version => some 'V'
  | _ => none

/-- The switch needs a value. -/
def takesValue : Switch → Bool
  | .config => true
  | .format => true
  | _ => false

/-- The switch ends the reading of the command line at once. -/
def halts : Switch → Bool
  | .help => true
  | .version => true
  | _ => false

/-- The value may be given to the switch. -/
def accepts : Switch → String → Bool
  | .config, value => !value.isEmpty
  | .format, value => (Format.ofName? value).isSome
  | _, _ => true

/-- Switches that every command takes, on either side of its name. -/
def shared : List Switch :=
  [.verbose, .config, .noRealpath, .warningsAsErrors, .help]

end Switch

/-- What may stand on one side of the command's name. -/
structure Side where
  /-- The switches. -/
  switches : List Switch
  /-- The first operand is the command's name, and ends the side. -/
  beforeName : Bool := false
  /-- The most operands, if there is a limit. -/
  most : Option Nat := none
  /-- An operand may be empty. -/
  emptyOperand : Bool := true

namespace Side

/-- One more operand may follow those already read. -/
def accepts (side : Side) (operands : List String) (operand : String) : Bool :=
  side.most.all (operands.length < ·) && (side.emptyOperand || !operand.isEmpty)

end Side

/-- What has been read on one side of the command's name. -/
structure Given where
  /-- The switches with their values. -/
  switches : List (Switch × String) := []
  /-- The operands. -/
  operands : List String := []

namespace Given

/-- The switch has been given. -/
def has (g : Given) (s : Switch) : Bool :=
  (g.switches.lookup s).isSome

/-- The value of a switch. -/
def value? (g : Given) (s : Switch) : Option String :=
  g.switches.lookup s

/-- Take down operands as long as the side accepts them. -/
def addOperands? (g : Given) (side : Side) : List String → Option Given
  | [] => some g
  | operand :: rest =>
      if side.accepts g.operands operand then
        addOperands? { g with operands := g.operands ++ [operand] } side rest
      else none

/-- Take down a switch, if it is new and its value is acceptable. -/
def record? (g : Given) (s : Switch) (value : String) : Option Given :=
  if g.has s || !s.accepts value then none
  else some { g with switches := (s, value) :: g.switches }

end Given

/-- How the reading of one side ends. -/
inductive SideEnd where
  /-- All is read, or all up to the command's name. -/
  | done (given : Given) (rest : List String)
  /-- A switch asks for something else. -/
  | halted (switch : Switch)

/-- How the reading of short switches in one argument ends. -/
inductive ClusterEnd where
  /-- All are read. -/
  | done (given : Given)
  /-- The last one needs its value from the next argument. -/
  | pending (given : Given) (switch : Switch)
  /-- A switch asks for something else. -/
  | halted (switch : Switch)

namespace Arguments

/-- Read short switches that are run together. -/
def readCluster (allowed : List Switch) (g : Given) : List Char → Option ClusterEnd
  | [] => some (.done g)
  | letter :: rest =>
      match allowed.find? fun s => s.short = some letter with
      | none => none
      | some s =>
          if s.takesValue then
            match rest with
            | [] => some (.pending g s)
            | '=' :: value => do return .done (← g.record? s (String.ofList value))
            | value => do return .done (← g.record? s (String.ofList value))
          else if s.halts then some (.halted s)
          else do readCluster allowed (← g.record? s "") rest

/-- A long switch: its name, and its value if it stands in the same argument. -/
def splitLong (cs : List Char) : String × Option String :=
  let name := cs.takeWhile (· ≠ '=')
  match cs.dropWhile (· ≠ '=') with
  | _ :: value => (String.ofList name, some (String.ofList value))
  | [] => (String.ofList name, none)

/-- Read a long switch without its dashes. -/
def readLong (allowed : List Switch) (g : Given) (cs : List Char) : Option ClusterEnd :=
  let (name, value) := splitLong cs
  match allowed.find? fun s => s.long = name with
  | none => none
  | some s =>
      match s.takesValue, value with
      | true, some v => do return .done (← g.record? s v)
      | true, none => some (.pending g s)
      | false, some _ => none
      | false, none => if s.halts then some (.halted s) else do return .done (← g.record? s "")

/-- How an argument reads by itself. -/
inductive Shape where
  /-- Two dashes, which end the switches. -/
  | terminator
  /-- A long switch, without its dashes. -/
  | long (cs : List Char)
  /-- Short switches, without their dash. -/
  | cluster (cs : List Char)
  /-- The name of a command, an operand, or the value of a switch. -/
  | operand

/-- The shape of an argument. A single dash is an operand. -/
def shape (arg : String) : Shape :=
  match arg.toList with
  | ['-', '-'] => .terminator
  | '-' :: '-' :: cs => .long cs
  | '-' :: c :: cs => .cluster (c :: cs)
  | _ => .operand

/-- The argument may be the value of the switch before it. -/
def isOperand (arg : String) : Bool :=
  match shape arg with
  | .operand => true
  | _ => false

/-- Read an argument that holds switches. -/
def readSwitches (allowed : List Switch) (g : Given) (arg : String) : Option ClusterEnd :=
  match shape arg with
  | .long cs => readLong allowed g cs
  | .cluster cs => readCluster allowed g cs
  | _ => none

/-- Read one side of the command's name. Whatever the side does not accept ends the reading where it
stands. Before the name there is nothing that two dashes could introduce. -/
def readSide (side : Side) (g : Given) : List String → Option SideEnd
  | [] => some (.done g [])
  | arg :: rest =>
      match shape arg with
      | .terminator =>
          if side.beforeName then none else do return .done (← g.addOperands? side rest) []
      | .operand =>
          if side.beforeName then some (.done g (arg :: rest))
          else do readSide side (← g.addOperands? side [arg]) rest
      | _ =>
          match readSwitches side.switches g arg with
          | none => none
          | some (.halted s) => some (.halted s)
          | some (.done g) => readSide side g rest
          | some (.pending g s) =>
              match rest with
              | [] => none
              | value :: rest =>
                  if isOperand value then do readSide side (← g.record? s value) rest else none

end Arguments

/-! ## Invocations -/

/-- What every command can be told. -/
structure Overrides where
  /-- The configuration file to use. -/
  config : Option String := none
  /-- Take file names as the compiler reports them. -/
  noRealpath : Bool := false
  /-- Report findings as errors. -/
  warningsAsErrors : Bool := false
  /-- Say more while working. -/
  verbose : Bool := false
  deriving DecidableEq, Repr

/-- A command with its operands. -/
inductive Action where
  /-- Check the snapshots at a path. -/
  | check (path : String) (format : Format)
  /-- Say which zones paths are in. -/
  | classify (paths : List String)
  /-- Print the policy and options in effect. -/
  | showPolicy
  /-- Write a configuration file. -/
  | init (force : Bool)
  deriving DecidableEq, Repr

/-- What a command line asks for. -/
inductive Invocation where
  /-- To run a command. -/
  | run (overrides : Overrides) (action : Action)
  /-- To print the version. -/
  | version
  /-- To print how the program is used. -/
  | help
  deriving DecidableEq, Repr

namespace Invocation

/-- What was given on either side of the command's name. -/
def overrides (before after : Given) : Overrides where
  config := (after.value? .config).or (before.value? .config)
  noRealpath := before.has .noRealpath || after.has .noRealpath
  warningsAsErrors := before.has .warningsAsErrors || after.has .warningsAsErrors
  verbose := before.has .verbose || after.has .verbose

/-- What may stand before the name of a command. -/
def sideBefore : Side where
  switches := .version :: Switch.shared
  beforeName := true

/-- What may follow the name of a command. -/
def sideAfter? (name : String) : Option Side :=
  if name = "check" then
    some { switches := .format :: Switch.shared, most := some 1, emptyOperand := false }
  else if name = "classify" then some { switches := Switch.shared }
  else if name = "show-policy" then some { switches := Switch.shared, most := some 0 }
  else if name = "init" then some { switches := .force :: Switch.shared, most := some 0 }
  else none

/-- The command of that name with what was given after it. -/
def action? (name : String) (g : Given) : Option Action :=
  match name, g.operands with
  | "check", [path] => do
      return .check path (← Format.ofName? ((g.value? .format).getD "text"))
  | "classify", path :: paths => some (.classify (path :: paths))
  | "show-policy", [] => some .showPolicy
  | "init", [] => some (.init (g.has .force))
  | _, _ => none

/-- What a switch asks for that ends the reading. -/
def ofHalt : Switch → Invocation
  | .version => .version
  | _ => .help

/-- Help is asked for in general, or about a command that exists. -/
def isHelpTopic : List String → Bool
  | [] => true
  | [name] => name = "help" || (sideAfter? name).isSome
  | _ => false

/-- What a command line asks for. -/
def ofArguments? (args : List String) : Option Invocation := do
  match ← Arguments.readSide sideBefore {} args with
  | .halted s => return ofHalt s
  | .done _ [] => none
  | .done before (name :: rest) =>
      if name = "help" then if isHelpTopic rest then return .help else none
      else
        match ← Arguments.readSide (← sideAfter? name) {} rest with
        | .halted s => return ofHalt s
        | .done after _ => return .run (overrides before after) (← action? name after)

end Invocation

end StyleZones

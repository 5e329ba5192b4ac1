import StyleZones.Unit.Basic
import StyleZones.Zone

/-!
# Walks over positions

A macro position is followed along either of its links until a position outside macros is reached.

* Along the spelling links, to where the text was typed: `SourceUnit.spelling`. The file there
  decides the zone.
* Along the expansion links, to where the outermost macro is used: `SourceUnit.expansionRoot`. The
  file there decides whether the text counts as a system header, and it is where findings are
  reported.

`SourceUnit.expansionChain` lists the positions of the second walk. A link is followed only if it
points to a smaller index, as every link of a well-formed unit does.
-/

set_option autoImplicit false

namespace StyleZones

/-- Where the compiler reports something to be. -/
structure PresumedLocation where
  /-- The name of the file. -/
  file : String
  /-- The line, counted from one. -/
  line : UInt32
  /-- The column, counted from one. -/
  column : UInt32
  deriving DecidableEq, Repr

namespace SourceUnit

variable (u : SourceUnit)

/-! ## Following links -/

/-- The spelling link of a macro position. -/
def spellingLink? (p : Nat) : Option Nat :=
  match u.positions[p]? with
  | some (.inMacro spelling _) => some spelling
  | _ => none

/-- The expansion link of a macro position: where the macro is used. -/
def expansionLink? (p : Nat) : Option Nat :=
  match u.positions[p]? with
  | some (.inMacro _ expansion) => some expansion
  | _ => none

/-- The position is in a macro. -/
def isMacro (p : Nat) : Bool :=
  (u.expansionLink? p).isSome

/-- The end of the spelling links from a position. -/
def spelling (p : Nat) : Nat :=
  match u.spellingLink? p with
  | some q => if q < p then spelling q else p
  | none => p
termination_by p

/-- The end of the expansion links from a position. -/
def expansionRoot (p : Nat) : Nat :=
  match u.expansionLink? p with
  | some q => if q < p then expansionRoot q else p
  | none => p
termination_by p

/-- The positions along the expansion links, from a position outwards. -/
def expansionChain (p : Nat) : List Nat :=
  match u.expansionLink? p with
  | some q => if q < p then p :: expansionChain q else [p]
  | none => [p]
termination_by p

/-! ## What is found at the end -/

/-- The file in which a position outside macros stands. -/
def file? (p : Nat) : Option SourceFile :=
  match u.positions[p]? with
  | some (.inFile file _ _) => u.files[file]?
  | _ => none

/-- The position counts as part of a system header. -/
def inSystemHeader (p : Nat) : Bool :=
  ((u.file? (u.expansionRoot p)).map SourceFile.system).getD false

/-- Where the compiler reports a position to be. -/
def presumedLocation? (p : Nat) : Option PresumedLocation :=
  match u.positions[u.expansionRoot p]? with
  | some (.inFile file line column) =>
      u.files[file]?.map fun f => ⟨f.reportedName, line, column⟩
  | _ => none

/-- The name of the file in which the text at a position was typed. -/
def fileName? (p : Nat) : Option String :=
  (u.presumedLocation? (u.spelling p)).map PresumedLocation.file

/-- Some position along the expansion links was typed in an implementation file. -/
def inImplementationFile (p : Nat) : Bool :=
  (u.expansionChain p).any fun q => ((u.fileName? q).map isImplementationName).getD false

end SourceUnit

namespace Classifier

/-- The zone of a position. System headers, and text that was typed in no file, belong to others. -/
def zoneOfPosition (c : Classifier) (u : SourceUnit) (p : Nat) : Zone :=
  if u.inSystemHeader p then .thirdParty
  else
    match u.fileName? p with
    | some name => c.zoneOfName name
    | none => .thirdParty

end Classifier

end StyleZones

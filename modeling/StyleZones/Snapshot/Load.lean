import StyleZones.Snapshot.Basic
import StyleZones.Text.Decimal
import StyleZones.Unit.Edit

/-!
# Loading a snapshot

Loading turns a snapshot into a unit, edit by edit, and reports the first reference that leads
nowhere. The references are looked at in this order: positions one after the other, then the parents
and positions of the declarations, then the base classes of all records. A macro position and a
parent must refer to an earlier entry of their own list; a base class may refer to any declaration,
since it may be declared later.

A place of the snapshot is not an index of the unit. Loading keeps the handles that are given out
for the entries, in three vectors that are filled as it goes along, and a reference is looked up in
the vector of its list.

* `Loading` is the unit so far with the three vectors;
* `Snapshot.load` is the unit, or the first fault;
* `LoadError.message` is what is said about a fault.
-/

set_option autoImplicit false

namespace StyleZones

/-- The place of a reference in a snapshot. -/
inductive RefSite where
  /-- The spelling link of a position. -/
  | spelling (position : Nat)
  /-- The expansion link of a position. -/
  | expansion (position : Nat)
  /-- The parent of a declaration. -/
  | parent (decl : Nat)
  /-- The position of a declaration. -/
  | declPosition (decl : Nat)
  /-- A base class of a declaration. -/
  | base (decl index : Nat)
  deriving DecidableEq, Repr

namespace RefSite

/-- The place in the words of the format. -/
def text : RefSite → String
  | .spelling p => "positions[" ++ Decimal.text p ++ "].spelling"
  | .expansion p => "positions[" ++ Decimal.text p ++ "].expansion"
  | .parent d => "decls[" ++ Decimal.text d ++ "].parent"
  | .declPosition d => "decls[" ++ Decimal.text d ++ "].position"
  | .base d i => "decls[" ++ Decimal.text d ++ "].bases[" ++ Decimal.text i ++ "]"

end RefSite

/-- Why a snapshot is not a unit. -/
inductive LoadError where
  /-- A position in a file that is not listed. -/
  | unknownFile (position : Nat) (file : UInt64)
  /-- A reference to a position that is not listed. -/
  | unknownPosition (site : RefSite) (index : UInt64)
  /-- A reference to a declaration that is not listed. -/
  | unknownDecl (site : RefSite) (index : UInt64)
  /-- A reference to an entry that is not earlier. -/
  | forwardReference (site : RefSite) (index : UInt64)
  deriving DecidableEq, Repr

namespace LoadError

/-- What is said about a fault. -/
def message : LoadError → String
  | .unknownFile p file =>
      "positions[" ++ Decimal.text p ++ "]: unknown file index " ++ Decimal.text file.toNat
  | .unknownPosition site index =>
      site.text ++ ": unknown position index " ++ Decimal.text index.toNat
  | .unknownDecl site index =>
      site.text ++ ": unknown declaration index " ++ Decimal.text index.toNat
  | .forwardReference site index =>
      site.text ++ ": index " ++ Decimal.text index.toNat ++ " must refer to an earlier entry"

end LoadError

/-! ## References -/

/-- The handle at a place of a vector, or the fault if there is none. -/
def handleAt (handles : Array Nat) (index : UInt64) (fault : LoadError) : Except LoadError Nat :=
  match handles[index.toNat]? with
  | some handle => .ok handle
  | none => .error fault

/-- The handle to an entry that has been added already. A place of the list, which has `total`
entries, that has not been reached is told from a place beyond it. -/
def earlier (handles : Array Nat) (total : Nat) (site : RefSite) (index : UInt64) :
    Except LoadError Nat :=
  match handles[index.toNat]? with
  | some handle => .ok handle
  | none =>
      if index.toNat < total then .error (.forwardReference site index)
      else .error (.unknownPosition site index)

/-! ## Passes -/

/-- A unit that is being loaded, with the handles that were given out for the entries of the
snapshot. -/
structure Loading where
  /-- The unit so far. -/
  unit : SourceUnit
  /-- The handles to the files, by place. -/
  files : Array Nat
  /-- The handles to the positions, by place. -/
  positions : Array Nat
  /-- The handles to the declarations, by place. -/
  decls : Array Nat

namespace Loading

/-- Before the first entry there is the unit itself. -/
def start : Loading :=
  ⟨.empty, #[], #[], #[]⟩

variable (l : Loading)

/-- A file is added, and then named as its line directive says. -/
def addFile (file : SourceFile) : Loading :=
  let id := l.unit.nextFile
  let unit := l.unit.apply (.addFile file.name file.system)
  let unit := match file.presumedName with
    | some name => unit.apply (.lineDirective id name)
    | none => unit
  { l with unit, files := l.files.push id }

/-- The edit that adds position `i` of `total`. -/
def positionEdit (total i : Nat) : PositionEntry → Except LoadError Edit
  | .inFile file line column => do
      let f ← handleAt l.files file (.unknownFile i file)
      return .addPosition f line column
  | .inMacro spelling expansion => do
      let s ← earlier l.positions total (.spelling i) spelling
      let e ← earlier l.positions total (.expansion i) expansion
      return .addMacro s e
  | .invalid => .ok .addInvalid

/-- Position `i` of `total` is added. -/
def addPosition (total i : Nat) (entry : PositionEntry) : Except LoadError Loading := do
  let edit ← l.positionEdit total i entry
  return { l with unit := l.unit.apply edit, positions := l.positions.push l.unit.nextPosition }

/-- The declaration in which entry `i` of `total` stands: the unit, or the one that its parent
names. -/
def parentDecl (total i : Nat) : Option UInt64 → Except LoadError Nat
  | none => .ok 0
  | some index =>
      if total ≤ index.toNat then .error (.unknownDecl (.parent i) index)
      else earlier l.decls total (.parent i) index

/-- The position of declaration `i`. -/
def declPosition (i : Nat) (index : UInt64) : Except LoadError Nat :=
  handleAt l.positions index (.unknownPosition (.declPosition i) index)

/-- The edit that adds declaration `i` of `total`. -/
def declEdit (total i : Nat) (entry : DeclEntry) : Except LoadError Edit := do
  let parent ← l.parentDecl total i entry.parent
  match entry with
  | .nameSpace name _ => return .addNamespace parent name
  | .record name _ position _ => return .addRecord parent name (← l.declPosition i position)
  | .enumeration name _ position => return .addEnumeration parent name (← l.declPosition i position)
  | .function name _ => return .addFunction parent name
  | .block _ => return .addBlock parent

/-- Declaration `i` of `total` is added, without its base classes. -/
def addDecl (total i : Nat) (entry : DeclEntry) : Except LoadError Loading := do
  let edit ← l.declEdit total i entry
  return { l with unit := l.unit.apply edit, decls := l.decls.push l.unit.nextDecl }

/-- The declaration that base class `j` of declaration `i` names; an unknown one names none. -/
def baseDecl (i j : Nat) : Option UInt64 → Except LoadError (Option Nat)
  | none => .ok none
  | some index => return some (← handleAt l.decls index (.unknownDecl (.base i j) index))

/-- Base class `j` of declaration `i` is added. By now there is a handle to every declaration. -/
def addBase (i : Nat) (j : Nat) (base : Option UInt64) : Except LoadError Loading := do
  let base ← l.baseDecl i j base
  return { l with unit := l.unit.apply (.addBase (l.decls.getD i 0) base) }

/-- A pass over the entries of a list, the first of which has place `i`. -/
def pass {α : Type} (turn : Loading → Nat → α → Except LoadError Loading) (l : Loading) (i : Nat) :
    List α → Except LoadError Loading
  | [] => .ok l
  | a :: as => do pass turn (← turn l i a) (i + 1) as

/-- The base classes of declaration `i` are added. -/
def addBases (i : Nat) (entry : DeclEntry) : Except LoadError Loading :=
  l.pass (fun l => l.addBase i) 0 entry.bases

end Loading

/-- The unit that a snapshot writes down, or the first reference that leads nowhere. -/
def Snapshot.load (s : Snapshot) : Except LoadError SourceUnit := do
  let files := s.files.foldl Loading.addFile .start
  let positions ← files.pass (fun l => l.addPosition s.positions.length) 0 s.positions
  let decls ← positions.pass (fun l => l.addDecl s.decls.length) 0 s.decls
  let loaded ← decls.pass Loading.addBases 0 s.decls
  return loaded.unit

end StyleZones

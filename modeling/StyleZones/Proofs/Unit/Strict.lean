import StyleZones.Proofs.Loops
import StyleZones.Proofs.Unit.WellFormed
import StyleZones.Unit.Bases

/-!
# Strict reading

The questions about a unit have an answer on any unit: a look at an entry that is not there gives a
stand-in, and a walk stops where the next index is not smaller. A strict reading forgives nothing. A
look at an entry that is not there has no answer, and neither has whatever depends on it. Its loops
follow links and parents wherever they lead, and a loop that needs more turns than it is granted has
no answer either.

On a well-formed unit the strict readings of entries that are there have the answers of the plain
ones. Each loop is granted one turn more than the index from which it starts. There are two kinds of
loops, and one lemma about each:

* `Strict.follow_eq_some` is about loops that follow one kind of link;
* `Strict.climb_eq_some` is about loops that go from scope to scope.
-/

set_option autoImplicit false

namespace StyleZones

/-! ## Loops -/

/-- The answer of a loop that is granted `n` turns. A turn leads to another state or to the answer,
or fails. -/
def loopWithin {σ β : Type} (turn : σ → Option (σ ⊕ β)) : Nat → σ → Option β
  | 0, _ => none
  | n + 1, s =>
      match turn s with
      | some (.inl next) => loopWithin turn n next
      | some (.inr answer) => some answer
      | none => none

/-- A loop answers if its turns keep an invariant and lower a rank that is below the number of
turns. -/
theorem loopWithin_eq_some {σ β : Type} {turn : σ → Option (σ ⊕ β)} (inv : σ → Prop)
    (rank : σ → Nat) (answer : σ → β)
    (hturn : ∀ s, inv s → turn s = some (.inr (answer s)) ∨
      ∃ next, turn s = some (.inl next) ∧ inv next ∧ rank next < rank s ∧ answer next = answer s)
    {n : Nat} {s : σ} (hs : inv s) (hn : rank s < n) : loopWithin turn n s = some (answer s) := by
  induction n generalizing s with
  | zero => exact absurd hn (Nat.not_lt_zero _)
  | succ n ih =>
    rw [loopWithin]
    rcases hturn s hs with hend | ⟨next, hnext, hinv, hrank, hanswer⟩
    · rw [hend]
    · -- The turn has used up one of the turns, and lowered the rank.
      rw [hnext, ← hanswer]
      exact ih hinv (by omega)

namespace Strict

variable (u : SourceUnit)

/-! ## Positions -/

/-- The spelling link of a position that is there. -/
def spellingLink (p : Nat) : Option (Option Nat) :=
  u.positions[p]?.map fun
    | .inMacro spelling _ => some spelling
    | _ => none

/-- The expansion link of a position that is there. -/
def expansionLink (p : Nat) : Option (Option Nat) :=
  u.positions[p]?.map fun
    | .inMacro _ expansion => some expansion
    | _ => none

/-- One turn of a loop that follows links. -/
def followTurn (link : Nat → Option (Option Nat)) (p : Nat) : Option (Nat ⊕ Nat) :=
  (link p).map fun
    | some q => .inl q
    | none => .inr p

def spelling (p : Nat) : Option Nat :=
  loopWithin (followTurn (spellingLink u)) (p + 1) p

def expansionRoot (p : Nat) : Option Nat :=
  loopWithin (followTurn (expansionLink u)) (p + 1) p

/-- One turn of the loop that lists positions outwards, each with whether it is in a macro. -/
def chainTurn : Nat × List (Nat × Bool) → Option ((Nat × List (Nat × Bool)) ⊕ List (Nat × Bool))
  | (p, seen) => (expansionLink u p).map fun
      | some q => .inl (q, seen ++ [(p, true)])
      | none => .inr (seen ++ [(p, false)])

def expansionChain (p : Nat) : Option (List (Nat × Bool)) :=
  loopWithin (chainTurn u) (p + 1) (p, [])

/-- The file in which a position stands, `none` inside if it stands in no file. -/
def file (p : Nat) : Option (Option SourceFile) := do
  match ← u.positions[p]? with
  | .inFile file _ _ => return some (← u.files[file]?)
  | _ => return none

def inSystemHeader (p : Nat) : Option Bool := do
  let root ← expansionRoot u p
  let file ← file u root
  return (file.map SourceFile.system).getD false

def presumedLocation (p : Nat) : Option (Option PresumedLocation) := do
  let root ← expansionRoot u p
  match ← u.positions[root]? with
  | .inFile file line column => return some ⟨(← u.files[file]?).reportedName, line, column⟩
  | _ => return none

def fileName (p : Nat) : Option (Option String) := do
  let spelled ← spelling u p
  return (← presumedLocation u spelled).map PresumedLocation.file

def inImplementationFile (p : Nat) : Option Bool := do
  let chain ← expansionChain u p
  chain.anyM fun step => do return ((← fileName u step.1).map isImplementationName).getD false

/-! ## Declarations -/

def entity (d : Nat) : Option Entity :=
  u.decls[d]?.map Decl.entity

def parent (d : Nat) : Option (Option Nat) :=
  u.decls[d]?.map Decl.parent

def bases (d : Nat) : Option (List (Option Nat)) :=
  u.decls[d]?.map Decl.bases

def name (d : Nat) : Option (Option String) :=
  (entity u d).map Entity.name

def position (d : Nat) : Option (Option Nat) :=
  (entity u d).map Entity.position

def simpleName (d : Nat) : Option String :=
  (name u d).map (·.getD "")

/-- One turn of a loop from scope to scope, which takes up what each scope brings and ends at the
unit itself. -/
def climbTurn {α : Type} (take : Entity → α → α) : Option Nat × α → Option ((Option Nat × α) ⊕ α)
  | (none, found) => some (.inr found)
  | (some d, found) => do
      match ← entity u d with
      | .unit => return .inr found
      | e => return .inl (← parent u d, take e found)

/-- What a scope brings to the labels in front of a name. -/
def takeLabel (e : Entity) (inner : List String) : List String :=
  e.label?.toList ++ inner

/-- What a scope brings to the outermost namespace. -/
def takeOutermost (e : Entity) (found : String) : String :=
  e.displayName?.getD found

/-- What a scope brings to the list of namespaces. -/
def takeNamespace (e : Entity) (inner : List String) : List String :=
  e.displayName?.toList ++ inner

def qualifiedName (d : Nat) : Option String := do
  let simple ← simpleName u d
  let scope ← parent u d
  let labels ← loopWithin (climbTurn u takeLabel) (d + 1) (scope, [simple])
  return scopeSeparator.intercalate labels

def outermostNamespace (d : Nat) : Option String :=
  loopWithin (climbTurn u takeOutermost) (d + 1) (some d, "")

def qualifiedNamespace (d : Nat) : Option String :=
  (loopWithin (climbTurn u takeNamespace) (d + 1) (some d, [])).map scopeSeparator.intercalate

def namespaceOf (mode : NamespaceMode) (d : Nat) : Option String := do
  match ← parent u d, mode with
  | some q, .outermost => outermostNamespace u q
  | some q, .qualified => qualifiedNamespace u q
  | none, _ => return ""

def find (name : String) : Option (Option Nat) :=
  ((List.range' 1 (u.decls.size - 1)).map Handle.word).findM? fun d =>
    return (← qualifiedName u d) = name

/-! ## Base classes -/

def isRecord (d : Nat) : Option Bool :=
  (entity u d).map Entity.isRecord

def recordBases (d : Nat) : Option (List Nat) := do
  ((← bases u d).filterMap id).filterM (isRecord u)

def searchBases (hit : Nat → Option Bool) (unmet todo : List Nat) : Option Bool :=
  match todo with
  | [] => some false
  | d :: rest =>
      if _ : d ∈ unmet then
        match hit d, recordBases u d with
        | some true, _ => some true
        | some false, some more => searchBases hit (unmet.erase d) (more ++ rest)
        | _, _ => none
      else searchBases hit unmet rest
termination_by (unmet.length, todo.length)
decreasing_by
  · have member : d ∈ unmet := by assumption
    have shorter := List.length_erase_of_mem member
    have inhabited := List.length_pos_of_mem member
    apply Prod.Lex.left
    omega
  · apply Prod.Lex.right
    simp

def hasIgnoredBase (policy : Policy) (d : Nat) : Option Bool := do
  let todo ← recordBases u d
  searchBases u (fun b => (qualifiedName u b).map policy.ignoresBase)
    ((List.range u.decls.size).erase d) todo

end Strict
end StyleZones

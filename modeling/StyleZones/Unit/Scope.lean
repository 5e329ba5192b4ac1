import StyleZones.Unit.Basic

/-!
# Scopes and names

A declaration stands in its parent, that one in its own parent, and so on up to the unit. Two names
are read off this chain.

* The *qualified name* joins the labels of the scopes from the outermost inwards and the
  declaration's own name. The unit and blocks have no label; an anonymous scope has a label that
  says what it is.
* The *namespace* of a declaration takes the namespaces of the chain only, either all of them or the
  outermost one.

A parent is followed only if it has a smaller index, as every parent in a well-formed unit has.
-/

set_option autoImplicit false

namespace StyleZones

/-- How much of the enclosing namespaces is shown. -/
inductive NamespaceMode where
  /-- The outermost namespace only. -/
  | outermost
  /-- All of them, from the outermost inwards. -/
  | qualified
  deriving DecidableEq, Repr

namespace NamespaceMode

/-- The name of a mode in configurations. -/
def name : NamespaceMode → String
  | .outermost => "outermost"
  | .qualified => "qualified"

/-- The mode of that name. -/
def ofName? (s : String) : Option NamespaceMode :=
  if s = "outermost" then some .outermost
  else if s = "qualified" then some .qualified
  else none

end NamespaceMode

namespace Entity

/-- The label under which an entity appears in the qualified names of what it holds. An empty name
counts as none; the unit and blocks do not appear. -/
def label? : Entity → Option String
  | .unit => none
  | .nameSpace name => some ((name.filter (· ≠ "")).getD "(anonymous namespace)")
  | .record name _ => some ((name.filter (· ≠ "")).getD "(anonymous struct)")
  | .enumeration name _ => some ((name.filter (· ≠ "")).getD "(anonymous enum)")
  | .function name => some ((name.filter (· ≠ "")).getD "")
  | .block => none

/-- The name under which a namespace is shown. Only a missing name makes a namespace anonymous. -/
def displayName? : Entity → Option String
  | .nameSpace name => some (name.getD "<anonymous namespace>")
  | _ => none

end Entity

/-- The text between the parts of a qualified name. -/
def scopeSeparator : String := "::"

namespace SourceUnit

variable (u : SourceUnit)

/-! ## Chains of scopes -/

/-- The scope that a declaration stands in, if the way there leads to a smaller index. -/
def scope? (d : Nat) : Option { q : Nat // q < d } :=
  match u.parent? d with
  | some q => if h : q < d then some ⟨q, h⟩ else none
  | none => none

/-- The scopes around a declaration, from the innermost outwards. -/
def scopes (d : Nat) : List Nat :=
  match u.scope? d with
  | some ⟨q, _⟩ => q :: scopes q
  | none => []
termination_by d

/-! ## Qualified names -/

/-- The labels of the scopes around a declaration, from the outermost inwards, put in front of
`inner`. The walk stops at the unit. -/
def labelsAround (d : Nat) (inner : List String) : List String :=
  match u.scope? d with
  | some ⟨q, _⟩ =>
      match u.entity? q with
      | some .unit => inner
      | some entity => labelsAround q (entity.label?.toList ++ inner)
      | none => inner
  | none => inner
termination_by d

/-- The qualified name of a declaration. -/
def qualifiedName (d : Nat) : String :=
  scopeSeparator.intercalate (u.labelsAround d [u.simpleName d])

/-- The handle to the first declaration of that qualified name, the unit itself not counted. -/
def find? (name : String) : Option Nat :=
  ((List.range' 1 (u.decls.size - 1)).map Handle.word).find? fun d => u.qualifiedName d = name

/-! ## Namespaces -/

/-- The name under which a declaration is shown if it is a namespace. -/
def displayName? (d : Nat) : Option String :=
  (u.entity? d).bind Entity.displayName?

/-- The outermost namespace among a declaration and its scopes; `found` is what has been met further
in. -/
def outermostFrom (d : Nat) (found : String) : String :=
  let found := (u.displayName? d).getD found
  match u.scope? d with
  | some ⟨q, _⟩ => outermostFrom q found
  | none => found
termination_by d

/-- The outermost namespace among a declaration and its scopes, empty if there is none. -/
def outermostNamespace (d : Nat) : String :=
  u.outermostFrom d ""

/-- The namespaces among a declaration and its scopes, from the outermost inwards, put in front of
`inner`. -/
def namespacesFrom (d : Nat) (inner : List String) : List String :=
  let inner := (u.displayName? d).toList ++ inner
  match u.scope? d with
  | some ⟨q, _⟩ => namespacesFrom q inner
  | none => inner
termination_by d

/-- All namespaces among a declaration and its scopes, joined from the outermost inwards. -/
def qualifiedNamespace (d : Nat) : String :=
  scopeSeparator.intercalate (u.namespacesFrom d [])

/-- The namespace that a scope lies in, the scope itself included. -/
def namespaceAt (mode : NamespaceMode) (d : Nat) : String :=
  match mode with
  | .outermost => u.outermostNamespace d
  | .qualified => u.qualifiedNamespace d

/-- The namespace that a declaration stands in, empty for the unit itself. -/
def namespaceOf (mode : NamespaceMode) (d : Nat) : String :=
  match u.parent? d with
  | some q => u.namespaceAt mode q
  | none => ""

end SourceUnit

end StyleZones

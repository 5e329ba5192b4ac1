import StyleZones.Policy.Basic
import StyleZones.Unit.Scope

/-!
# Base classes

A record derives from its base classes, from theirs, and so on; unknown bases and bases that are not
records lead nowhere. `SourceUnit.hasIgnoredBase` asks whether a base class that the policy ignores
is among them.

Base classes may refer to each other in circles. The search keeps an inventory of the declarations
it has not met yet, and looks at each of them once.
-/

set_option autoImplicit false

namespace StyleZones

namespace SourceUnit

variable (u : SourceUnit)

/-- The known base classes of a declaration that are records. -/
def recordBases (d : Nat) : List Nat :=
  ((u.bases d).filterMap id).filter u.isRecord

/-- A declaration that satisfies `hit` is met from the declarations `todo`, going through
declarations of the inventory `unmet` only. -/
def searchBases (hit : Nat → Bool) (unmet todo : List Nat) : Bool :=
  match todo with
  | [] => false
  | d :: rest =>
      if _ : d ∈ unmet then
        hit d || searchBases hit (unmet.erase d) (u.recordBases d ++ rest)
      else searchBases hit unmet rest
termination_by (unmet.length, todo.length)
decreasing_by
  · have member : d ∈ unmet := by assumption
    have shorter := List.length_erase_of_mem member
    have inhabited := List.length_pos_of_mem member
    apply Prod.Lex.left
    omega
  · apply Prod.Lex.right
    simp

/-- The policy ignores the declaration as a base class. -/
def isIgnoredBase (policy : Policy) (d : Nat) : Bool :=
  policy.ignoresBase (u.qualifiedName d)

/-- Some record that a declaration derives from, other than itself, is ignored by the policy. -/
def hasIgnoredBase (policy : Policy) (d : Nat) : Bool :=
  u.searchBases (u.isIgnoredBase policy) ((List.range u.decls.size).erase d) (u.recordBases d)

end SourceUnit

end StyleZones

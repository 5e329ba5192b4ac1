import StyleZones.Check.Basic

/-!
# Checkers

A checker holds a policy, options and checks. Each declaration is first triaged: only a class or
enumeration in a checked zone, whose name is not ignored and which is not a test matcher, is
forwarded to the checks; everything else is skipped for the first reason that applies.

* `Checker.triage` decides about a declaration;
* `Checker.checkTag` gives the findings about one declaration;
* `Checker.checkDecls` gives the report about a list of declarations, sorted by location.

The disk enters through the real paths of file names only.
-/

set_option autoImplicit false

namespace StyleZones

/-- Why a declaration is not checked, in the order in which the reasons are tried. -/
inductive SkipReason where
  /-- It is neither a class nor an enumeration. -/
  | notATag
  /-- It belongs to others, or stands nowhere. -/
  | thirdParty
  /-- Its name is ignored. -/
  | ignoredName
  /-- It is a class named as a test matcher. -/
  | matcherSuffix
  deriving DecidableEq, Repr

/-- A class or enumeration. -/
inductive Tag where
  /-- A class, struct or union. -/
  | classLike (decl : Nat)
  /-- An enumeration. -/
  | enumeration (decl : Nat)
  deriving DecidableEq, Repr

namespace Tag

/-- The declaration as a class or enumeration. -/
def ofDecl? (u : SourceUnit) (d : Nat) : Option Tag :=
  match u.entity? d with
  | some (.record _ _) => some (.classLike d)
  | some (.enumeration _ _) => some (.enumeration d)
  | _ => none

/-- The tag is a class. -/
def isClass : Tag → Bool
  | .classLike _ => true
  | .enumeration _ => false

/-- The declaration of the tag. -/
def decl : Tag → Nat
  | .classLike d => d
  | .enumeration d => d

end Tag

/-- What becomes of a declaration. -/
inductive Disposition where
  /-- It is not checked. -/
  | skipped (reason : SkipReason)
  /-- It is handed to the checks. -/
  | forward (zone : Zone) (position : Nat) (tag : Tag)
  deriving DecidableEq, Repr

namespace Disposition

/-- The declaration is handed to the checks. -/
def isForward : Disposition → Bool
  | .forward _ _ _ => true
  | .skipped _ => false

end Disposition

/-- A policy, options and checks. -/
structure Checker where
  /-- The policy. -/
  policy : Policy
  /-- The options. -/
  options : Options
  /-- The checks, in the order in which they run. -/
  checks : List Check

namespace Checker

variable (c : Checker) (real : RealPath)

/-- The end of the names of test matchers. -/
def matcherSuffix : String := "Matcher"

/-- What decides the zones of file names. -/
def classifier : Classifier :=
  ⟨c.policy, c.options.pathMode, real⟩

/-- What becomes of a declaration of the unit. -/
def triage (u : SourceUnit) (d : Nat) : Disposition :=
  match Tag.ofDecl? u d with
  | none => .skipped .notATag
  | some tag =>
      match u.position? d with
      | none => .skipped .thirdParty
      | some p =>
          let zone := (c.classifier real).zoneOfPosition u p
          if !zone.isChecked then .skipped .thirdParty
          else if c.policy.ignoresType (u.simpleName d) then .skipped .ignoredName
          else if tag.isClass && Text.endsWith (u.simpleName d) matcherSuffix then
            .skipped .matcherSuffix
          else .forward zone p tag

/-- What the checks see of a unit. -/
def context (u : SourceUnit) : CheckContext :=
  ⟨u, c.policy, c.options⟩

/-- The findings of all checks about a forwarded declaration. -/
def forward (u : SourceUnit) (zone : Zone) (position : Nat) (tag : Tag) : List Finding :=
  c.checks.flatMap fun check =>
    match tag with
    | .classLike d => check.onClass (c.context u) ⟨zone, position, d⟩
    | .enumeration d => check.onEnumeration (c.context u) ⟨zone, position, d⟩

/-- The findings of all checks about a declaration. -/
def checkTag (u : SourceUnit) (d : Nat) : List Finding :=
  match c.triage real u d with
  | .skipped _ => []
  | .forward zone position tag => c.forward u zone position tag

/-- A report with one more declaration seen, and checked unless it is skipped. -/
def tally (u : SourceUnit) (r : Report) (d : Nat) : Report :=
  match c.triage real u d with
  | .skipped _ => { r with seen := r.seen + 1 }
  | .forward zone position tag =>
      { findings := r.findings ++ c.forward u zone position tag
        seen := r.seen + 1
        checked := r.checked + 1 }

/-- The report about a list of declarations. -/
def checkDecls (u : SourceUnit) (decls : List Nat) : Report :=
  (decls.foldl (c.tally real u) .empty).sorted

/-- The report about all classes and enumerations of a unit. -/
def checkUnit (u : SourceUnit) : Report :=
  c.checkDecls real u u.tags

end Checker

end StyleZones

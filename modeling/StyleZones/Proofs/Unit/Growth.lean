import StyleZones.Unit.Edit

/-!
# What a run of edits does to the entries that are there

An edit adds an entry at the end of a table, or gives a base class to a declaration, or gives a name
to a file. So an entry that is there before a run of edits is there after it, at the same index, and
this module says exactly what has become of it.

* A position is the same (`SourceUnit.positions_applyAll`).
* A declaration has the base classes that were added to it, after those that it had, and is
  otherwise the same (`SourceUnit.decls_applyAll`).
* A file has the name of the last line directive about it, if there was one, and is otherwise the
  same (`SourceUnit.files_applyAll`).

Nothing is asked of the edits here: they need not be valid.
-/

set_option autoImplicit false

namespace StyleZones

/-! ## What edits bring to an entry -/

namespace Edit

/-- The base classes that an edit adds to declaration `d`. -/
def basesFor (d : Nat) : Edit → List (Option Nat)
  | .addBase decl base => if decl = d then [base] else []
  | _ => []

/-- The name that an edit gives to file `i`. -/
def nameFor (i : Nat) : Edit → Option String
  | .lineDirective file name => if file = i then some name else none
  | _ => none

/-- The base classes that a run of edits adds to declaration `d`, in order. -/
def addedBases (d : Nat) (es : List Edit) : List (Option Nat) :=
  es.flatMap (basesFor d)

/-- The name that the last line directive about file `i` gives. -/
def lastName (i : Nat) : List Edit → Option String
  | [] => none
  | e :: es => (lastName i es).or (e.nameFor i)

/-- Only an edit that adds a base class to a declaration brings one. -/
theorem basesFor_eq_nil {d : Nat} {e : Edit} (h : ∀ base, e ≠ .addBase d base) :
    e.basesFor d = [] := by
  cases e with
  | addBase decl base =>
    by_cases hd : decl = d
    · subst hd
      exact absurd rfl (h base)
    · simp [basesFor, hd]
  | _ => rfl

/-- A declaration that no edit gives a base class to gets none. -/
theorem addedBases_eq_nil {d : Nat} {es : List Edit} (h : ∀ base, Edit.addBase d base ∉ es) :
    addedBases d es = [] := by
  rw [addedBases, List.flatMap_eq_nil_iff]
  intro e he
  refine basesFor_eq_nil fun base heq => ?_
  exact h base (heq ▸ he)

/-- Only a line directive about a file names it. -/
theorem nameFor_eq_none {i : Nat} {e : Edit} (h : ∀ name, e ≠ .lineDirective i name) :
    e.nameFor i = none := by
  cases e with
  | lineDirective file name =>
    by_cases hi : file = i
    · subst hi
      exact absurd rfl (h name)
    · simp [nameFor, hi]
  | _ => rfl

/-- A file that no edit renames keeps its name. -/
theorem lastName_eq_none {i : Nat} {es : List Edit} (h : ∀ name, Edit.lineDirective i name ∉ es) :
    lastName i es = none := by
  induction es with
  | nil => rfl
  | cons e es ih =>
    have hes : lastName i es = none := ih fun name hname => h name (List.mem_cons_of_mem e hname)
    have he : e.nameFor i = none :=
      nameFor_eq_none fun name heq => h name (heq ▸ List.mem_cons_self)
    rw [lastName, hes, he]
    rfl

end Edit

namespace Decl

/-- The declaration with further base classes. -/
def withBases (d : Decl) (more : List (Option Nat)) : Decl :=
  { d with bases := d.bases ++ more }

@[simp] theorem withBases_nil (d : Decl) : d.withBases [] = d := by
  simp [withBases]

/-- Base classes that are added later stand further back. -/
@[simp] theorem withBases_withBases (d : Decl) (more rest : List (Option Nat)) :
    (d.withBases more).withBases rest = d.withBases (more ++ rest) := by
  simp [withBases]

end Decl

namespace SourceFile

/-- The file under a new name, if one is given. -/
def renamed (f : SourceFile) (name : Option String) : SourceFile :=
  { f with presumedName := name.or f.presumedName }

@[simp] theorem renamed_none (f : SourceFile) : f.renamed none = f := by
  simp [renamed]

/-- A later name replaces an earlier one. -/
@[simp] theorem renamed_renamed (f : SourceFile) (first second : Option String) :
    (f.renamed first).renamed second = f.renamed (second.or first) := by
  simp [renamed, Option.or_assoc]

end SourceFile

namespace SourceUnit

variable (u : SourceUnit)

/-! ## One edit -/

theorem files_size_le_apply (e : Edit) : u.files.size ≤ (u.apply e).files.size := by
  cases e <;> simp [apply, addFile, renameFile, addPosition, addDecl, addBase]

theorem positions_size_le_apply (e : Edit) : u.positions.size ≤ (u.apply e).positions.size := by
  cases e <;> simp [apply, addFile, renameFile, addPosition, addDecl, addBase]

theorem decls_size_le_apply (e : Edit) : u.decls.size ≤ (u.apply e).decls.size := by
  cases e <;> simp [apply, addFile, renameFile, addPosition, addDecl, addBase]

/-- One edit leaves the positions as they are. -/
theorem positions_apply (e : Edit) {p : Nat} (hp : p < u.positions.size) :
    (u.apply e).positions[p]? = u.positions[p]? := by
  cases e with
  | addPosition | addMacro | addInvalid =>
    simp [apply, addPosition, Array.getElem?_push, Nat.ne_of_lt hp]
  | _ => rfl

/-- One edit changes a declaration by at most one base class more. -/
theorem decls_apply (e : Edit) {d : Nat} (hd : d < u.decls.size) :
    (u.apply e).decls[d]? = u.decls[d]?.map (·.withBases (e.basesFor d)) := by
  cases e with
  | addNamespace | addRecord | addEnumeration | addFunction | addBlock =>
    simp [apply, addDecl, Edit.basesFor, Array.getElem?_push, Nat.ne_of_lt hd]
  | addBase decl base =>
    by_cases h : decl = d
    · simp [apply, addBase, Edit.basesFor, Array.getElem?_modify, h, Decl.withBases]
    · simp [apply, addBase, Edit.basesFor, Array.getElem?_modify, h]
  | _ => simp [apply, addFile, renameFile, addPosition, Edit.basesFor]

/-- One edit changes a file by at most the name that it is presumed to have. -/
theorem files_apply (e : Edit) {i : Nat} (hi : i < u.files.size) :
    (u.apply e).files[i]? = u.files[i]?.map (·.renamed (e.nameFor i)) := by
  cases e with
  | addFile name system => simp [apply, addFile, Edit.nameFor, Array.getElem?_push, Nat.ne_of_lt hi]
  | lineDirective file name =>
    by_cases h : file = i
    · simp [apply, renameFile, Edit.nameFor, Array.getElem?_modify, h, SourceFile.renamed]
    · simp [apply, renameFile, Edit.nameFor, Array.getElem?_modify, h]
  | _ => simp [apply, addPosition, addDecl, addBase, Edit.nameFor]

/-! ## A run of edits -/

theorem applyAll_cons (e : Edit) (es : List Edit) :
    u.applyAll (e :: es) = (u.apply e).applyAll es := rfl

/-- Edits in two runs are edits in one run. -/
theorem applyAll_append (xs ys : List Edit) :
    u.applyAll (xs ++ ys) = (u.applyAll xs).applyAll ys :=
  List.foldl_append

theorem decls_size_le_applyAll (es : List Edit) : u.decls.size ≤ (u.applyAll es).decls.size := by
  induction es generalizing u with
  | nil => exact Nat.le_refl _
  | cons e es ih => exact Nat.le_trans (u.decls_size_le_apply e) (ih (u.apply e))

/-- A run of edits leaves the positions that are there as they are. -/
theorem positions_applyAll (es : List Edit) {p : Nat} (hp : p < u.positions.size) :
    (u.applyAll es).positions[p]? = u.positions[p]? := by
  induction es generalizing u with
  | nil => rfl
  | cons e es ih =>
    have hlater : p < (u.apply e).positions.size :=
      Nat.lt_of_lt_of_le hp (u.positions_size_le_apply e)
    rw [applyAll_cons, ih (u.apply e) hlater, u.positions_apply e hp]

/-- A run of edits adds base classes to the declarations that are there, and changes nothing else
about them. -/
theorem decls_applyAll (es : List Edit) {d : Nat} (hd : d < u.decls.size) :
    (u.applyAll es).decls[d]? = u.decls[d]?.map (·.withBases (Edit.addedBases d es)) := by
  induction es generalizing u with
  | nil => simp [applyAll, Edit.addedBases]
  | cons e es ih =>
    have hlater : d < (u.apply e).decls.size := Nat.lt_of_lt_of_le hd (u.decls_size_le_apply e)
    -- What the first edit adds stands before what the later ones add.
    rw [applyAll_cons, ih (u.apply e) hlater, u.decls_apply e hd, Option.map_map]
    congr 1
    funext decl
    exact Decl.withBases_withBases decl (e.basesFor d) (Edit.addedBases d es)

/-- A run of edits names the files that are there after its line directives, and changes nothing
else about them. -/
theorem files_applyAll (es : List Edit) {i : Nat} (hi : i < u.files.size) :
    (u.applyAll es).files[i]? = u.files[i]?.map (·.renamed (Edit.lastName i es)) := by
  induction es generalizing u with
  | nil => simp [applyAll, Edit.lastName]
  | cons e es ih =>
    have hlater : i < (u.apply e).files.size := Nat.lt_of_lt_of_le hi (u.files_size_le_apply e)
    -- A name that the later edits give replaces the one that the first gives.
    rw [applyAll_cons, ih (u.apply e) hlater, u.files_apply e hi, Option.map_map]
    congr 1
    funext file
    exact SourceFile.renamed_renamed file (e.nameFor i) (Edit.lastName i es)

end SourceUnit

end StyleZones

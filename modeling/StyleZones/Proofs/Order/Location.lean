import Mathlib.Data.List.Lex
import Mathlib.Data.Prod.Lex
import Mathlib.Data.String.Basic
import Mathlib.Order.Compare
import StyleZones.Report.Location

/-!
# The order of locations

Locations are compared by three functions that answer with an `Ordering`: one for components, one
for lists of components, one for locations. This module gives each of them a key in a linear order
and shows that the answer is the order of the keys.

* A component has its kind and its name as key, a path the keys of its components, a location the
  key of its file, its line and its column; all of them are compared lexicographically.
* `Location.compare_compares`: the comparison of two locations says how their keys stand.
* `Location.notAfter_iff`: a location does not come after another exactly if its key is not greater.
* `Location.key_eq_iff`: two locations have the same key exactly if they are the same place.
-/

set_option autoImplicit false

namespace StyleZones

/-! ## Answers and lexicographic orders

A run of comparisons stops at the first one that tells its two sides apart. Where each comparison
answers for a part, the run answers for the parts taken together lexicographically. -/

section Compares

variable {α β : Type} [LinearOrder α] [LinearOrder β]

theorem compareOfLessAndEq_compares (a b : α) : (compareOfLessAndEq a b).Compares a b := by
  rw [← cmp_eq_compareOfLessAndEq]
  exact cmp_compares a b

/-- Two comparisons in a row answer for pairs. -/
theorem then_compares_pair {o p : Ordering} {a b : α} {x y : β} (ho : o.Compares a b)
    (hp : p.Compares x y) : (o.then p).Compares (toLex (a, x)) (toLex (b, y)) := by
  cases o with
  | lt => exact Prod.Lex.toLex_lt_toLex.2 (Or.inl ho)
  | gt => exact Prod.Lex.toLex_lt_toLex.2 (Or.inl ho)
  | eq =>
    -- Only here does the second answer count.
    have hab : a = b := ho
    subst hab
    cases p with
    | lt => exact Prod.Lex.toLex_lt_toLex.2 (Or.inr ⟨rfl, hp⟩)
    | gt => exact Prod.Lex.toLex_lt_toLex.2 (Or.inr ⟨rfl, hp⟩)
    | eq =>
      have hxy : x = y := hp
      subst hxy
      exact rfl

/-- A comparison of heads and one of tails answer for lists. -/
theorem then_compares_cons {o p : Ordering} {a b : α} {as bs : List α} (ho : o.Compares a b)
    (hp : p.Compares as bs) : (o.then p).Compares (a :: as) (b :: bs) := by
  cases o with
  | lt => exact List.cons_lt_cons_iff.2 (Or.inl ho)
  | gt => exact List.cons_lt_cons_iff.2 (Or.inl ho)
  | eq =>
    have hab : a = b := ho
    subst hab
    cases p with
    | lt => exact List.cons_lt_cons_iff.2 (Or.inr ⟨rfl, hp⟩)
    | gt => exact List.cons_lt_cons_iff.2 (Or.inr ⟨rfl, hp⟩)
    | eq =>
      have htails : as = bs := hp
      subst htails
      exact rfl

/-- An answer that is not "greater" says that the first side is at most the second. -/
theorem isLE_iff_of_compares {o : Ordering} {a b : α} (h : o.Compares a b) :
    o.isLE = true ↔ a ≤ b := by
  rw [← Ordering.ne_gt_iff_isLE]
  exact h.ne_gt

end Compares

/-! ## Components and paths -/

namespace Path

namespace Component

/-- The name of an entry; the other components have none. -/
def label : Component → String
  | .entry name => name
  | _ => ""

/-- The key of a component: its kind, then its name. -/
def key (c : Component) : ℕ ×ₗ String :=
  toLex (c.rank, c.label)

theorem key_injective : Function.Injective key := by
  intro a b h
  cases a <;> cases b <;> simp_all [key, rank, label]

/-- Only between two entries is the comparison not that of the kinds, and their kinds are equal. -/
theorem compare_eq_then (a b : Component) :
    a.compare b =
      (compareOfLessAndEq a.rank b.rank).then (compareOfLessAndEq a.label b.label) := by
  cases a with
  -- An entry against anything else differs in kind, and against an entry the kinds cancel.
  | entry x => cases b <;> rfl
  | root | here | up =>
    cases b with
    | entry y => rfl
    | root | here | up => simp [compare, rank, label, compareOfLessAndEq]

theorem compare_compares (a b : Component) : (a.compare b).Compares a.key b.key := by
  rw [compare_eq_then]
  exact then_compares_pair (compareOfLessAndEq_compares _ _) (compareOfLessAndEq_compares _ _)

end Component

/-- The key of a path: the keys of its components. -/
def key (path : String) : List (ℕ ×ₗ String) :=
  (components path).map Component.key

theorem key_eq_iff (a b : String) : key a = key b ↔ components a = components b :=
  Component.key_injective.list_map.eq_iff

theorem compareComponents_compares (as bs : List Component) :
    (compareComponents as bs).Compares (as.map Component.key) (bs.map Component.key) := by
  induction as generalizing bs with
  | nil =>
    -- A path comes before every path that goes on from it.
    cases bs with
    | nil => exact rfl
    | cons b bs => exact List.nil_lt_cons _ _
  | cons a as ih =>
    cases bs with
    | nil => exact List.nil_lt_cons _ _
    | cons b bs => exact then_compares_cons (a.compare_compares b) (ih bs)

theorem compare_compares (a b : String) : (compare a b).Compares (key a) (key b) :=
  compareComponents_compares (components a) (components b)

end Path

/-! ## Locations -/

namespace Location

/-- The key of a location: the components of its file, then its line, then its column. -/
def key (l : Location) : List (ℕ ×ₗ String) ×ₗ ℕ ×ₗ ℕ :=
  toLex (Path.key l.file, toLex (l.line.toNat, l.column.toNat))

/-- The comparison of locations answers for their keys. -/
theorem compare_compares (a b : Location) : (a.compare b).Compares a.key b.key :=
  then_compares_pair (Path.compare_compares a.file b.file)
    (then_compares_pair (compareOfLessAndEq_compares a.line.toNat b.line.toNat)
      (compareOfLessAndEq_compares a.column.toNat b.column.toNat))

theorem notAfter_iff (a b : Location) : a.notAfter b = true ↔ a.key ≤ b.key :=
  isLE_iff_of_compares (compare_compares a b)

/-- Locations have the same key exactly if they are the same place. -/
theorem key_eq_iff (a b : Location) : a.key = b.key ↔ a.samePlace b = true := by
  have hline : a.line.toNat = b.line.toNat ↔ a.line = b.line := UInt32.toNat_inj
  have hcolumn : a.column.toNat = b.column.toNat ↔ a.column = b.column := UInt32.toNat_inj
  simp only [key, samePlace, EmbeddingLike.apply_eq_iff_eq, Prod.mk.injEq, Path.key_eq_iff, hline,
    hcolumn, Bool.and_eq_true, beq_iff_eq, and_assoc]

end Location

end StyleZones

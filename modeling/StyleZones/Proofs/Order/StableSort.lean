import Mathlib.Data.List.Sort
import Mathlib.Order.Defs.LinearOrder

/-!
# Stable sorting

A list `ys` is the stable sort of a list `xs` by a key if its keys do not decrease and, for every
key, the entries with that key are those of `xs` in the order of `xs`. The two conditions say
everything there is to say: `ys` is then a rearrangement of `xs` (`StableSort.perm`), and there is
one such list only (`StableSort.unique`).

`stableSort_mergeSort` finds it: a merge sort by a Boolean comparison that reflects the order of the
keys is the stable sort by these keys.
-/

set_option autoImplicit false

namespace StyleZones

variable {α κ : Type} [LinearOrder κ]

/-- The list `ys` is the list `xs` in the order of its keys, entries with the same key in the order
of `xs`. -/
structure StableSort (key : α → κ) (xs ys : List α) : Prop where
  /-- The keys do not decrease. -/
  sorted : ys.Pairwise fun a b => key a ≤ key b
  /-- The entries with a given key are the same, in the same order. -/
  ties : ∀ k, ys.filter (key · = k) = xs.filter (key · = k)

variable {key : α → κ} {xs ys zs : List α}

/-! ## Lists that agree key by key -/

/-- Lists that agree key by key have the same entries. -/
theorem mem_of_ties_eq (h : ∀ k, ys.filter (key · = k) = zs.filter (key · = k)) {a : α}
    (ha : a ∈ ys) : a ∈ zs := by
  have hy : a ∈ ys.filter (key · = key a) := List.mem_filter.2 ⟨ha, by simp⟩
  rw [h (key a)] at hy
  exact (List.mem_filter.1 hy).1

/-- Lists that agree key by key are rearrangements of each other. -/
theorem perm_of_ties_eq (h : ∀ k, ys.filter (key · = k) = zs.filter (key · = k)) : ys.Perm zs := by
  classical
  rw [List.perm_iff_count]
  intro a
  have hcount : ∀ l : List α, (l.filter (key · = key a)).count a = l.count a :=
    fun l => List.count_filter (by simp)
  calc ys.count a = (ys.filter (key · = key a)).count a := (hcount ys).symm
    _ = (zs.filter (key · = key a)).count a := by rw [h (key a)]
    _ = zs.count a := hcount zs

/-- The head of a sorted list has the least key of the list. -/
theorem key_head_le {a b : α} (h : (a :: ys).Pairwise fun a b => key a ≤ key b) (hb : b ∈ a :: ys) :
    key a ≤ key b := by
  rcases List.mem_cons.1 hb with rfl | hb
  · exact le_refl _
  · exact (List.pairwise_cons.1 h).1 b hb

/-- Sorted lists that agree key by key are equal. -/
theorem eq_of_ties_eq (hy : ys.Pairwise fun a b => key a ≤ key b)
    (hz : zs.Pairwise fun a b => key a ≤ key b)
    (h : ∀ k, ys.filter (key · = k) = zs.filter (key · = k)) : ys = zs := by
  induction ys generalizing zs with
  | nil => exact (List.nil_perm.1 (perm_of_ties_eq h)).symm
  | cons a ys ih =>
    cases zs with
    | nil => exact List.perm_nil.1 (perm_of_ties_eq h)
    | cons b zs =>
      -- Each head occurs in the other list, so neither key is below the other.
      have hab : key a = key b := le_antisymm
        (key_head_le hy (mem_of_ties_eq (fun k => (h k).symm) List.mem_cons_self))
        (key_head_le hz (mem_of_ties_eq h List.mem_cons_self))
      have hheads : a = b := by
        have hk := h (key a)
        rw [List.filter_cons_of_pos (by simp), List.filter_cons_of_pos (by simp [hab])] at hk
        exact (List.cons.inj hk).1
      subst hheads
      -- The heads cancel under their own key and are not there under any other.
      have htails : ∀ k, ys.filter (key · = k) = zs.filter (key · = k) := by
        intro k
        have hk := h k
        by_cases hak : key a = k
        · rw [List.filter_cons_of_pos (by simp [hak]),
            List.filter_cons_of_pos (by simp [hak])] at hk
          exact (List.cons.inj hk).2
        · rwa [List.filter_cons_of_neg (by simp [hak]),
            List.filter_cons_of_neg (by simp [hak])] at hk
      exact congrArg (a :: ·) (ih hy.tail hz.tail htails)

/-! ## The stable sort -/

namespace StableSort

/-- A stable sort is a rearrangement: nothing is lost and nothing is doubled. -/
theorem perm (h : StableSort key xs ys) : ys.Perm xs :=
  perm_of_ties_eq h.ties

/-- There is at most one stable sort. -/
theorem unique (hy : StableSort key xs ys) (hz : StableSort key xs zs) : ys = zs :=
  eq_of_ties_eq hy.sorted hz.sorted fun k => (hy.ties k).trans (hz.ties k).symm

/-- Parts that have been sorted already are sorted to the same list as what they were sorted
from. -/
theorem append_iff {xs' ys' : List α} (hx : StableSort key xs xs') (hy : StableSort key ys ys') :
    StableSort key (xs' ++ ys') zs ↔ StableSort key (xs ++ ys) zs := by
  have hties : ∀ k, (xs' ++ ys').filter (key · = k) = (xs ++ ys).filter (key · = k) := by
    intro k
    rw [List.filter_append, List.filter_append, hx.ties, hy.ties]
  constructor
  · intro h
    exact ⟨h.sorted, fun k => (h.ties k).trans (hties k)⟩
  · intro h
    exact ⟨h.sorted, fun k => (h.ties k).trans (hties k).symm⟩

/-- A test that asks for a key finds the same entries in the same order before and after a stable
sort. -/
theorem filter_eq (h : StableSort key xs ys) {p : α → Bool} {k : κ}
    (hp : ∀ a, p a = true ↔ key a = k) :
    ys.filter p = xs.filter p := by
  have hkey : p = fun a => decide (key a = k) := by
    funext a
    rw [Bool.eq_iff_iff, decide_eq_true_iff]
    exact hp a
  rw [hkey]
  exact h.ties k

end StableSort

/-! ## Sorting what the entries of a list give -/

section FlatMap

variable {β : Type} {g : β → List α} {bs cs : List β} (hperm : bs.Perm cs)
include hperm

/-- A rearranged list gives the same, if no two different entries give anything. -/
theorem flatMap_eq_of_perm (honce : ∀ a ∈ bs, ∀ b ∈ bs, g a ≠ [] → g b ≠ [] → a = b) :
    bs.flatMap g = cs.flatMap g := by
  induction hperm with
  | nil => rfl
  | cons a hperm ih =>
    rw [List.flatMap_cons, List.flatMap_cons,
      ih fun x hx y hy => honce x (List.mem_cons_of_mem a hx) y (List.mem_cons_of_mem a hy)]
  | swap a b rest =>
    simp only [List.flatMap_cons]
    -- Two neighbours change places: they are the same, or one of them gives nothing.
    by_cases ha : g a = []
    · simp [ha]
    · by_cases hb : g b = []
      · simp [hb]
      · rw [honce b (by simp) a (by simp) hb ha]
  | trans hfirst _ ihfirst ihsecond =>
    rw [ihfirst honce]
    refine ihsecond fun a ha b hb => ?_
    exact honce a (hfirst.mem_iff.2 ha) b (hfirst.mem_iff.2 hb)

/-- If different entries give different keys, it does not matter for the stable sort in which order
they come. -/
theorem StableSort.flatMap_perm
    (hkeys : ∀ a ∈ bs, ∀ b ∈ bs, ∀ x ∈ g a, ∀ y ∈ g b, key x = key y → a = b)
    (h : StableSort key (bs.flatMap g) zs) : StableSort key (cs.flatMap g) zs where
  sorted := h.sorted
  ties := by
    intro k
    rw [h.ties, List.filter_flatMap, List.filter_flatMap]
    refine flatMap_eq_of_perm hperm fun a ha b hb hak hbk => ?_
    obtain ⟨x, hx⟩ := List.exists_mem_of_ne_nil _ hak
    obtain ⟨y, hy⟩ := List.exists_mem_of_ne_nil _ hbk
    obtain ⟨hx, hxk⟩ := List.mem_filter.1 hx
    obtain ⟨hy, hyk⟩ := List.mem_filter.1 hy
    have hkey : key x = key y := (of_decide_eq_true hxk).trans (of_decide_eq_true hyk).symm
    exact hkeys a ha b hb x hx y hy hkey

end FlatMap

/-- If all keys are different, it does not matter for the stable sort in which order the entries
come. -/
theorem StableSort.of_perm (hperm : xs.Perm ys) (hkeys : ∀ a ∈ xs, ∀ b ∈ xs, key a = key b → a = b)
    (h : StableSort key xs zs) : StableSort key ys zs := by
  rw [← List.flatMap_singleton' ys]
  rw [← List.flatMap_singleton' xs] at h
  refine h.flatMap_perm hperm fun a ha b hb x hx y hy hxy => ?_
  rw [List.mem_singleton.1 hx, List.mem_singleton.1 hy] at hxy
  exact hkeys a ha b hb hxy

/-! ## Merge sort

The comparison of a merge sort is a Boolean function `le`. Where it reflects the order of the keys
it is transitive and total, which is all that merge sort asks of it. -/

section MergeSort

variable {le : α → α → Bool} (hle : ∀ a b, le a b = true ↔ key a ≤ key b)

include hle

theorem comparison_trans (a b c : α) (hab : le a b = true) (hbc : le b c = true) : le a c = true :=
  (hle a c).2 (le_trans ((hle a b).1 hab) ((hle b c).1 hbc))

theorem comparison_total (a b : α) : (le a b || le b a) = true := by
  rw [Bool.or_eq_true, hle, hle]
  exact le_total _ _

/-- Merge sort keeps the entries with a given key in order: together they are a sorted part of the
list, and sorted parts survive. -/
theorem filter_mergeSort (k : κ) :
    (xs.mergeSort le).filter (key · = k) = xs.filter (key · = k) := by
  have htied : (xs.filter (key · = k)).Pairwise fun a b => le a b = true := by
    refine List.pairwise_of_forall_mem_list fun a ha b hb => ?_
    have hak : key a = k := by simpa using (List.mem_filter.1 ha).2
    have hbk : key b = k := by simpa using (List.mem_filter.1 hb).2
    rw [hle, hak, hbk]
  have hpart : (xs.filter (key · = k)).Sublist (xs.mergeSort le) :=
    List.sublist_mergeSort (comparison_trans hle) (comparison_total hle) htied List.filter_sublist
  have hkept : (xs.filter (key · = k)).Sublist ((xs.mergeSort le).filter (key · = k)) := by
    simpa using hpart.filter (key · = k)
  -- The part is all of the entries with this key, since sorting adds none.
  have hlength := ((List.mergeSort_perm xs le).filter (key · = k)).length_eq
  exact (hkept.eq_of_length hlength.symm).symm

/-- Merge sort by a comparison that reflects the order of the keys is the stable sort by the
keys. -/
theorem stableSort_mergeSort (xs : List α) : StableSort key xs (xs.mergeSort le) where
  sorted := by
    have hsorted : (xs.mergeSort le).Pairwise fun a b => le a b = true :=
      List.pairwise_mergeSort (comparison_trans hle) (comparison_total hle) xs
    exact hsorted.imp fun {a b} hab => (hle a b).1 hab
  ties := filter_mergeSort hle

end MergeSort

end StyleZones

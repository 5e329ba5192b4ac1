import Mathlib.Data.List.Forall2

/-!
# Loops and lists

What the proofs need to know about steps that may fail, about loops of such steps over a list, and
about lists that are related item by item. Nothing here is about units or documents.

* `bind_eq_ok_iff` takes two steps in a row apart.
* `mapM_eq_some_iff` and the lemmas before it say when a loop over a list has an answer, and which.
* `foldl_collect` is about loops that put one thing after the other at the end of a list.
-/

set_option autoImplicit false

namespace StyleZones

/-! ## Steps that may fail -/

section Steps

variable {ε δ α β : Type} {x : Except ε α}

/-- Of two steps in a row, both must succeed. -/
theorem bind_eq_ok_iff {f : α → Except ε β} {b : β} :
    (x >>= f) = .ok b ↔ ∃ a, x = .ok a ∧ f a = .ok b := by
  cases x with
  | error e =>
    constructor
    · intro h
      cases h
    · rintro ⟨a, ha, -⟩
      cases ha
  | ok a =>
    constructor
    · intro h
      exact ⟨a, rfl, h⟩
    · rintro ⟨a', ha', h⟩
      cases ha'
      exact h

/-- What follows a step need only agree on what the step can give. -/
theorem bind_congr_of_eq_ok {f g : α → Except ε β} (h : ∀ a, x = .ok a → f a = g a) :
    (x >>= f) = (x >>= g) := by
  cases x with
  | error e => rfl
  | ok a => exact h a rfl

/-- A failure that is reported in other words is a failure. -/
theorem mapError_eq_error_iff {wrap : ε → δ} {fault : δ} :
    x.mapError wrap = .error fault ↔ ∃ e, x = .error e ∧ fault = wrap e := by
  cases x with
  | ok a => simp [Except.mapError]
  | error e => simp [Except.mapError, eq_comm]

end Steps

/-! ## Loops that may have no answer -/

section Answers

variable {α β : Type} {l : List α}

theorem anyM_eq_some {f : α → Option Bool} {g : α → Bool} (h : ∀ a ∈ l, f a = some (g a)) :
    l.anyM f = some (l.any g) := by
  induction l with
  | nil => rfl
  | cons a l ih =>
    have hl := ih fun b hb => h b (List.mem_cons_of_mem a hb)
    cases hg : g a <;> simp [List.anyM, h a List.mem_cons_self, hg, hl]

theorem findM?_eq_some {f : α → Option Bool} {g : α → Bool} (h : ∀ a ∈ l, f a = some (g a)) :
    l.findM? f = some (l.find? g) := by
  induction l with
  | nil => rfl
  | cons a l ih =>
    have hl := ih fun b hb => h b (List.mem_cons_of_mem a hb)
    cases hg : g a <;> simp [List.findM?, h a List.mem_cons_self, hg, hl]

theorem filterAuxM_eq_some {f : α → Option Bool} {g : α → Bool} (h : ∀ a ∈ l, f a = some (g a))
    (kept : List α) : l.filterAuxM f kept = some ((l.filter g).reverse ++ kept) := by
  induction l generalizing kept with
  | nil => rfl
  | cons a l ih =>
    have hl := ih fun b hb => h b (List.mem_cons_of_mem a hb)
    cases hg : g a <;> simp [List.filterAuxM, h a List.mem_cons_self, hg, hl]

theorem filterM_eq_some {f : α → Option Bool} {g : α → Bool} (h : ∀ a ∈ l, f a = some (g a)) :
    l.filterM f = some (l.filter g) := by
  simp [List.filterM, filterAuxM_eq_some h]

/-- A loop has an answer if every item has one, and the answer is made of theirs. -/
theorem mapM_eq_some {f : α → Option β} {g : α → β} (h : ∀ a ∈ l, f a = some (g a)) :
    l.mapM f = some (l.map g) := by
  induction l with
  | nil => rfl
  | cons a l ih =>
    have hl := ih fun b hb => h b (List.mem_cons_of_mem a hb)
    simp [List.mapM_cons, h a List.mem_cons_self, hl]

/-- Reading item by item succeeds if it does so for each item, in order. -/
theorem mapM_eq_some_iff {f : α → Option β} {bs : List β} :
    l.mapM f = some bs ↔ List.Forall₂ (fun a b => f a = some b) l bs := by
  induction l generalizing bs with
  | nil => simp [eq_comm]
  | cons a l ih =>
    simp only [List.mapM_cons, Option.bind_eq_bind, Option.bind_eq_some_iff, Option.pure_def,
      Option.some.injEq, ih, List.forall₂_cons_left_iff]
    constructor
    · rintro ⟨b, hb, bs, hbs, rfl⟩
      exact ⟨b, bs, hb, hbs, rfl⟩
    · rintro ⟨b, bs, hb, hbs, rfl⟩
      exact ⟨b, hb, bs, hbs, rfl⟩

end Answers

/-! ## Lists related item by item -/

section Related

variable {α β : Type} {R : α → β → Prop} {as : List α}

/-- If each item of a list is related to something, the list is related to a list. -/
theorem exists_forall₂_iff : (∃ bs, List.Forall₂ R as bs) ↔ ∀ a ∈ as, ∃ b, R a b := by
  induction as with
  | nil => simp
  | cons a as ih =>
    simp only [List.forall₂_cons_left_iff, List.forall_mem_cons, ← ih]
    constructor
    · rintro ⟨_, b, bs, hb, hbs, rfl⟩
      exact ⟨⟨b, hb⟩, bs, hbs⟩
    · rintro ⟨⟨b, hb⟩, bs, hbs⟩
      exact ⟨b :: bs, b, bs, hb, hbs, rfl⟩

/-- Every item of the one list is related to some item of the other. -/
theorem exists_related_of_forall₂ {bs : List β} (h : List.Forall₂ R as bs) {a : α} (ha : a ∈ as) :
    ∃ b ∈ bs, R a b := by
  induction h with
  | nil => cases ha
  | cons hab _ ih =>
    rcases List.mem_cons.1 ha with rfl | ha
    · exact ⟨_, List.mem_cons_self, hab⟩
    · obtain ⟨b, hb, hab⟩ := ih ha
      exact ⟨b, List.mem_cons_of_mem _ hb, hab⟩

end Related

/-! ## Loops that collect -/

section Collect

variable {α β σ : Type}

/-- A loop whose turns each put one thing at the end of a list puts all of them there, in order. -/
theorem foldl_collect (turn : σ → α → σ) (g : α → β) (state : List β → σ)
    (hturn : ∀ bs a, turn (state bs) a = state (bs ++ [g a])) (bs : List β) (as : List α) :
    as.foldl turn (state bs) = state (bs ++ as.map g) := by
  induction as generalizing bs with
  | nil => rw [List.foldl_nil, List.map_nil, List.append_nil]
  | cons a as ih =>
    rw [List.foldl_cons, hturn, ih, List.append_assoc, List.singleton_append, List.map_cons]

/-- Changing the entry after a first part of a list changes nothing else. -/
theorem modify_append_cons (f : α → α) (pre post : List α) (a : α) :
    (pre ++ a :: post).modify pre.length f = pre ++ f a :: post := by
  induction pre with
  | nil => rfl
  | cons b pre ih =>
    rw [List.cons_append, List.length_cons, List.modify_succ_cons, ih]
    rfl

end Collect

end StyleZones

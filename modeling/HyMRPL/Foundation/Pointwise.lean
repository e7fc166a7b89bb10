import Mathlib.Data.List.Forall2

/-!
# Lists related entry by entry

Writing related entries to the same place keeps two lists related, and a list is
related to itself after an entry was replaced by one that it is related to. An
insertion keeps all the entries, up to the relation, and adds one.
-/

namespace Pointwise

open List

variable {α β : Type*} {R : α → β → Prop}

theorem forall₂_set {l : List α} {l' : List β} (h : Forall₂ R l l') {a : α} {b : β}
    (hab : R a b) (i : ℕ) : Forall₂ R (l.set i a) (l'.set i b) := by
  induction h generalizing i with
  | nil => exact Forall₂.nil
  | cons hhead htail ih =>
      cases i with
      | zero => exact Forall₂.cons hab htail
      | succ i => exact Forall₂.cons hhead (ih i)

variable {R : α → α → Prop}

theorem forall₂_modify (hrefl : ∀ a, R a a) {l : List α} {i : ℕ} {f : α → α}
    (hf : ∀ a, l[i]? = some a → R a (f a)) : Forall₂ R l (l.modify i f) := by
  induction l generalizing i with
  | nil => simp
  | cons a l ih =>
      cases i with
      | zero => exact Forall₂.cons (hf a rfl) (forall₂_same.mpr fun b _ => hrefl b)
      | succ i => exact Forall₂.cons (hrefl a) (ih fun b hb => hf b hb)

theorem forall₂_set_right (hrefl : ∀ a, R a a) {l : List α} {i : ℕ} {a b : α}
    (ha : l[i]? = some a) (hab : R a b) : Forall₂ R l (l.set i b) := by
  obtain ⟨hi, rfl⟩ := List.getElem?_eq_some_iff.mp ha
  have hset := forall₂_set (forall₂_same.mpr fun b _ => hrefl b) hab (l := l) i
  rwa [List.set_getElem_self] at hset

/-- `new` is `old`, up to `R`, with at most one more entry, which satisfies `P`. -/
def Extends (R : α → α → Prop) (P : α → Prop) (old new : List α) : Prop :=
  ∃ before added after, Forall₂ R old (before ++ after) ∧ new = before ++ added ++ after ∧
    added.length ≤ 1 ∧ ∀ a ∈ added, P a

variable {P : α → Prop} {old new : List α}

theorem Extends.of_forall₂ (h : Forall₂ R old new) : Extends R P old new :=
  ⟨[], [], new, h, rfl, Nat.zero_le 1, by simp⟩

theorem Extends.of_insert (hrefl : ∀ a, R a a) {before after : List α} {a : α} (ha : P a) :
    Extends R P (before ++ after) (before ++ a :: after) :=
  ⟨before, [a], after, forall₂_same.mpr fun b _ => hrefl b, by simp, Nat.le_refl 1,
    by simpa using ha⟩

theorem exists_of_mem_right {β : Type*} {R : α → β → Prop} {l : List α} {l' : List β}
    (h : Forall₂ R l l') {b : β} (hb : b ∈ l') : ∃ a ∈ l, R a b := by
  induction h with
  | nil => cases hb
  | cons hhead _ ih =>
      cases hb with
      | head => exact ⟨_, List.mem_cons_self, hhead⟩
      | tail _ hb =>
          have ⟨a, ha, hab⟩ := ih hb
          exact ⟨a, List.mem_cons_of_mem _ ha, hab⟩

theorem exists_of_mem_left {β : Type*} {R : α → β → Prop} {l : List α} {l' : List β}
    (h : Forall₂ R l l') {a : α} (ha : a ∈ l) : ∃ b ∈ l', R a b :=
  exists_of_mem_right (R := fun b a => R a b) h.flip ha

/-- An entry of the new list is related to an old one, or it is the new one. -/
theorem Extends.mem_new (h : Extends R P old new) {b : α} (hb : b ∈ new) :
    P b ∨ ∃ a ∈ old, R a b := by
  obtain ⟨before, added, after, hkept, rfl, -, hadded⟩ := h
  simp only [List.mem_append] at hb
  rcases hb with (hb | hb) | hb
  · exact Or.inr (exists_of_mem_right hkept (List.mem_append_left _ hb))
  · exact Or.inl (hadded b hb)
  · exact Or.inr (exists_of_mem_right hkept (List.mem_append_right _ hb))

/-- Every old entry is still there. -/
theorem Extends.mem_old (h : Extends R P old new) {a : α} (ha : a ∈ old) :
    ∃ b ∈ new, R a b := by
  obtain ⟨before, added, after, hkept, rfl, -, -⟩ := h
  have ⟨b, hb, hab⟩ := exists_of_mem_left hkept ha
  refine ⟨b, ?_, hab⟩
  rcases List.mem_append.mp hb with hb | hb
  · exact List.mem_append_left _ (List.mem_append_left _ hb)
  · exact List.mem_append_right _ hb

end Pointwise

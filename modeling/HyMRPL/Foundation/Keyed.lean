import Mathlib.Data.List.Nodup

/-!
# Entries with keys

A list of entries is read by key. While no key is there twice, an entry that is put in
anywhere, or put in the place of one with the same key, is seen under its own key and
nowhere else.
-/

namespace Keyed

variable {α κ : Type*} [DecidableEq κ] {key : α → κ} {l before after : List α} {a b : α} {k : κ}

/-- The first entry with a key. -/
def lookup (key : α → κ) (l : List α) (k : κ) : Option α := l.find? fun a => key a = k

theorem lookup_append : lookup key (before ++ after) k =
    (lookup key before k).or (lookup key after k) :=
  List.find?_append

theorem lookup_cons : lookup key (a :: l) k = if key a = k then some a else lookup key l k := by
  by_cases h : key a = k <;> simp [lookup, h]

theorem mem_of_lookup (h : lookup key l k = some a) : a ∈ l ∧ key a = k :=
  ⟨List.mem_of_find?_eq_some h, by simpa using List.find?_some h⟩

theorem lookup_eq_none (h : k ∉ l.map key) : lookup key l k = none := by
  rw [lookup, List.find?_eq_none]
  intro a ha
  simpa using fun heq => h (List.mem_map.mpr ⟨a, ha, heq⟩)

/-- A new key is seen under itself. -/
theorem lookup_insert (h : key a ∉ (before ++ after).map key) (k : κ) :
    lookup key (before ++ a :: after) k =
      if k = key a then some a else lookup key (before ++ after) k := by
  rw [lookup_append, lookup_append, lookup_cons]
  by_cases hk : k = key a
  · subst hk
    rw [List.map_append, List.mem_append, not_or] at h
    rw [lookup_eq_none h.1, if_pos rfl, if_pos rfl, Option.none_or]
  · simp [hk, Ne.symm hk]

/-- Another entry for a key is seen in its place. -/
theorem lookup_replace (h : ((before ++ a :: after).map key).Nodup) (hb : key b = key a) (k : κ) :
    lookup key (before ++ b :: after) k =
      if k = key a then some b else lookup key (before ++ a :: after) k := by
  rw [List.map_append, List.map_cons, List.nodup_middle, List.nodup_cons,
    ← List.map_append] at h
  rw [lookup_insert (hb ▸ h.1), lookup_insert h.1, hb]
  by_cases hk : k = key a <;> simp [hk]

theorem lookup_map {f : α → α} (hf : ∀ a, key (f a) = key a) :
    lookup key (l.map f) k = (lookup key l k).map f := by
  rw [lookup, lookup, List.find?_map]
  simp only [Function.comp_def, hf]

end Keyed

import Mathlib.Data.List.Nodup

/-!
# Find or create

A list of entries is searched by key, and where no entry is found one is created with
a value, unless the memory for it is missing. Entries are never changed: whichever
value comes first for a key stays.
-/

namespace FindOrCreate

variable {α κ ρ : Type*} {key : α → κ} {mk : κ → ρ → α} {f : List α → κ → ρ → List α}

/-- `f` finds the entry of a key, or creates it by `mk` anywhere in the list. -/
structure Spec (key : α → κ) (mk : κ → ρ → α) (f : List α → κ → ρ → List α) : Prop where
  key_mk : ∀ k r, key (mk k r) = k
  found : ∀ l k r, k ∈ l.map key → f l k r = l
  created : ∀ l k r, k ∉ l.map key → f l k r = l ∨
    ∃ before after, l = before ++ after ∧ f l k r = before ++ mk k r :: after

/-- A find-or-create that does not run out of memory. -/
def Creates (key : α → κ) (f : List α → κ → ρ → List α) : Prop :=
  ∀ l k r, k ∈ (f l k r).map key

/-- `f` for each of some keys. -/
def all (f : List α → κ → ρ → List α) (l : List α) (ks : List κ) (r : ρ) : List α :=
  ks.foldl (fun l k => f l k r) l

/-- `f` for several groups of keys, each with a value. -/
def run (f : List α → κ → ρ → List α) (l : List α) (groups : List (List κ × ρ)) : List α :=
  groups.foldl (fun l group => all f l group.1 group.2) l

namespace Spec

variable {l : List α} {k : κ} {ks : List κ} {r : ρ} {a : α}

/-- What is in the list stays there. -/
theorem mem_of_mem (h : Spec key mk f) (ha : a ∈ l) : a ∈ f l k r := by
  by_cases hk : k ∈ l.map key
  · rwa [h.found l k r hk]
  · rcases h.created l k r hk with hsame | ⟨before, after, rfl, hnew⟩
    · rwa [hsame]
    · rw [hnew]
      simp only [List.mem_append, List.mem_cons] at ha ⊢
      exact ha.imp id Or.inr

/-- What is new was created now, for a key without an entry. -/
theorem mem_or_eq (h : Spec key mk f) (ha : a ∈ f l k r) :
    a ∈ l ∨ (a = mk k r ∧ k ∉ l.map key) := by
  by_cases hk : k ∈ l.map key
  · rw [h.found l k r hk] at ha
    exact Or.inl ha
  · rcases h.created l k r hk with hsame | ⟨before, after, rfl, hnew⟩
    · rw [hsame] at ha
      exact Or.inl ha
    · rw [hnew] at ha
      simp only [List.mem_append, List.mem_cons] at ha ⊢
      rcases ha with ha | rfl | ha
      · exact Or.inl (Or.inl ha)
      · exact Or.inr ⟨rfl, hk⟩
      · exact Or.inl (Or.inr ha)

/-- No key gets a second entry. -/
theorem nodup (h : Spec key mk f) (hl : (l.map key).Nodup) : ((f l k r).map key).Nodup := by
  by_cases hk : k ∈ l.map key
  · rwa [h.found l k r hk]
  · rcases h.created l k r hk with hsame | ⟨before, after, rfl, hnew⟩
    · rwa [hsame]
    · rw [List.map_append] at hl hk
      rw [hnew, List.map_append, List.map_cons, h.key_mk, List.nodup_middle, List.nodup_cons]
      exact ⟨hk, hl⟩

theorem mem_all (h : Spec key mk f) (ha : a ∈ l) : a ∈ all f l ks r := by
  induction ks generalizing l with
  | nil => exact ha
  | cons k ks ih => exact ih (h.mem_of_mem ha)

/-- What is new after several keys was created for one of them, without an entry before. -/
theorem mem_all_or_new (h : Spec key mk f) (ha : a ∈ all f l ks r) :
    a ∈ l ∨ (key a ∉ l.map key ∧ key a ∈ ks ∧ a = mk (key a) r) := by
  induction ks generalizing l with
  | nil => exact Or.inl ha
  | cons k ks ih =>
      rcases ih ha with hmem | ⟨hkey, hks, heq⟩
      · rcases h.mem_or_eq hmem with hold | ⟨rfl, hk⟩
        · exact Or.inl hold
        · rw [h.key_mk]
          exact Or.inr ⟨hk, List.mem_cons_self .., rfl⟩
      · refine Or.inr ⟨fun hold => hkey ?_, List.mem_cons_of_mem _ hks, heq⟩
        obtain ⟨b, hb, hkb⟩ := List.mem_map.mp hold
        exact hkb ▸ List.mem_map_of_mem (h.mem_of_mem hb)

theorem mem_all_or_eq (h : Spec key mk f) (ha : a ∈ all f l ks r) :
    a ∈ l ∨ ∃ k ∈ ks, a = mk k r :=
  (h.mem_all_or_new ha).imp id fun hnew => ⟨key a, hnew.2⟩

theorem nodup_all (h : Spec key mk f) (hl : (l.map key).Nodup) :
    ((all f l ks r).map key).Nodup := by
  induction ks generalizing l with
  | nil => exact hl
  | cons k ks ih => exact ih (h.nodup hl)

/-- With enough memory the keys are those that were there and the new ones. -/
theorem mem_map_all_iff (h : Spec key mk f) (hf : Creates key f) :
    k ∈ (all f l ks r).map key ↔ k ∈ l.map key ∨ k ∈ ks := by
  induction ks generalizing l with
  | nil => simp [all]
  | cons k' ks ih =>
      have hone : k ∈ (f l k' r).map key ↔ k ∈ l.map key ∨ k = k' := by
        constructor
        · intro hk
          obtain ⟨a, ha, rfl⟩ := List.mem_map.mp hk
          rcases h.mem_or_eq ha with hold | ⟨rfl, -⟩
          · exact Or.inl (List.mem_map_of_mem hold)
          · exact Or.inr (h.key_mk k' r)
        · rintro (hk | rfl)
          · obtain ⟨a, ha, rfl⟩ := List.mem_map.mp hk
            exact List.mem_map_of_mem (h.mem_of_mem ha)
          · exact hf l k r
      have hrest := ih (l := f l k' r)
      rw [all, List.foldl_cons]
      rw [all] at hrest
      rw [hrest, hone, List.mem_cons, or_assoc]

theorem mem_all_iff (h : Spec key mk f) (hf : Creates key f) :
    a ∈ all f l ks r ↔ a ∈ l ∨ (key a ∉ l.map key ∧ key a ∈ ks ∧ a = mk (key a) r) := by
  refine ⟨h.mem_all_or_new, ?_⟩
  rintro (ha | ⟨hkey, hks, heq⟩)
  · exact h.mem_all ha
  · have hmem : key a ∈ (all f l ks r).map key := (h.mem_map_all_iff hf).mpr (Or.inr hks)
    obtain ⟨b, hb, hkb⟩ := List.mem_map.mp hmem
    rcases h.mem_all_or_new hb with hold | ⟨-, -, hnew⟩
    · exact absurd (hkb ▸ List.mem_map_of_mem hold) hkey
    · rw [hkb, ← heq] at hnew
      exact hnew ▸ hb

/-- After several groups of keys, an entry is one that was there before, or has the value of
the first group with its key. -/
theorem mem_run_iff [∀ group : List κ × ρ, Decidable (key a ∈ group.1)] (h : Spec key mk f)
    (hf : Creates key f) {groups : List (List κ × ρ)} :
    a ∈ run f l groups ↔ a ∈ l ∨ (key a ∉ l.map key ∧
      ∃ group, groups.find? (fun group => key a ∈ group.1) = some group ∧
        a = mk (key a) group.2) := by
  induction groups generalizing l with
  | nil => simp [run]
  | cons group groups ih =>
      have hrun : a ∈ run f l (group :: groups) ↔ a ∈ run f (all f l group.1 group.2) groups :=
        Iff.rfl
      rw [hrun, ih, h.mem_all_iff hf, h.mem_map_all_iff hf, List.find?_cons]
      by_cases hgroup : key a ∈ group.1
      · simp [hgroup]
      · simp [hgroup]

end Spec

end FindOrCreate

import Mathlib.Logic.Function.Basic
import Mathlib.Logic.Relation

/-!
# Graphs given by one optional pointer per vertex

`f : α → Option α` gives each vertex at most one outgoing link. The graph is
acyclic when no vertex reaches itself over one or more links. Erasing links
keeps it acyclic. Giving a link to a vertex that has none keeps it acyclic
exactly when the new target does not lead back to the vertex:
`acyclic_update_some_iff`.
-/

namespace Pointer

open Relation

variable {α : Type*}

/-- The link from `a` to `b`. -/
def Link (f : α → Option α) (a b : α) : Prop := f a = some b

/-- `a` leads to `b` over any number of links. -/
def Leads (f : α → Option α) : α → α → Prop := ReflTransGen (Link f)

/-- No vertex reaches itself over one or more links. -/
def Acyclic (f : α → Option α) : Prop := ∀ a, ¬ TransGen (Link f) a a

theorem acyclic_of_links {f g : α → Option α} (hf : Acyclic f)
    (hle : ∀ a b, g a = some b → f a = some b) : Acyclic g := by
  intro a hcycle
  have hmono : Link g ≤ Link f := hle
  exact hf a (TransGen.mono hmono a a hcycle)

section Update

variable [DecidableEq α] {f : α → Option α} {a b : α}

theorem acyclic_update_none (hf : Acyclic f) (a : α) :
    Acyclic (Function.update f a none) := by
  apply acyclic_of_links hf
  intro x y hxy
  by_cases hx : x = a
  · subst hx
    simp at hxy
  · simpa [hx] using hxy

/-- A vertex without a link is met by a path only at its end, so the old path
survives the new link. -/
theorem Leads.update_some (hfa : f a = none) {x y : α} (h : Leads f x y) :
    Leads (Function.update f a (some b)) x y := by
  have hmono : Link f ≤ Link (Function.update f a (some b)) := by
    intro x y hxy
    have hx : x ≠ a := by
      rintro rfl
      simp [Link, hfa] at hxy
    simpa [Link, hx] using hxy
  exact ReflTransGen.mono hmono x y h

/-- A path through the new graph is an old path, or it enters the new link once
and continues from `b`. -/
theorem transGen_update_some (hback : ¬ Leads f b a) {x y : α}
    (h : TransGen (Link (Function.update f a (some b))) x y) :
    TransGen (Link f) x y ∨ (Leads f x a ∧ Leads f b y) := by
  induction h with
  | single hxy =>
      rename_i y
      by_cases hx : x = a
      · subst hx
        have hby : b = y := by simpa [Link] using hxy
        subst hby
        exact Or.inr ⟨ReflTransGen.refl, ReflTransGen.refl⟩
      · exact Or.inl (TransGen.single (by simpa [Link, hx] using hxy))
  | tail hxy hyz ih =>
      rename_i y z
      by_cases hy : y = a
      · subst hy
        have hbz : b = z := by simpa [Link] using hyz
        subst hbz
        rcases ih with hold | ⟨-, hby⟩
        · exact Or.inr ⟨hold.to_reflTransGen, ReflTransGen.refl⟩
        · exact absurd hby hback
      · have hstep : Link f y z := by simpa [Link, hy] using hyz
        rcases ih with hold | ⟨hxa, hby⟩
        · exact Or.inl (hold.tail hstep)
        · exact Or.inr ⟨hxa, hby.tail hstep⟩

/-- A new link from a vertex that has none closes a cycle exactly when its
target already leads to the vertex. -/
theorem acyclic_update_some_iff (hf : Acyclic f) (hfa : f a = none) :
    Acyclic (Function.update f a (some b)) ↔ ¬ Leads f b a := by
  constructor
  · intro hnew hback
    have hlink : Link (Function.update f a (some b)) a b := by simp [Link]
    exact hnew a (TransGen.head' hlink (hback.update_some hfa))
  · intro hback x hcycle
    rcases transGen_update_some hback hcycle with hold | ⟨hxa, hbx⟩
    · exact hf x hold
    · exact hback (hbx.trans hxa)

end Update

end Pointer

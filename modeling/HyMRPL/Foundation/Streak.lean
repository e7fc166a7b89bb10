import Mathlib.Data.List.TakeWhile
import Mathlib.Data.Nat.Notation

/-!
# Streaks

In a list with the latest entry first, the streak of a predicate is the number of
latest entries that satisfy it without a break. A new entry makes the streak one
longer, or ends it.
-/

namespace Streak

/-- How many of the latest entries satisfy `p` without a break. -/
def streak {α : Type*} (p : α → Bool) (l : List α) : ℕ := (l.takeWhile p).length

variable {α : Type*} {p q : α → Bool} {a : α} {l : List α}

@[simp] theorem streak_nil (p : α → Bool) : streak p [] = 0 := rfl

theorem streak_cons_of_pos (h : p a = true) : streak p (a :: l) = streak p l + 1 := by
  rw [streak, List.takeWhile_cons_of_pos h, List.length_cons, streak]

theorem streak_cons_of_neg (h : p a = false) : streak p (a :: l) = 0 := by
  rw [streak, List.takeWhile_cons_of_neg (by simp [h]), List.length_nil]

/-- Where `p` holds of every entry of a streak of `q`, its own streak is at least as long. -/
theorem streak_le_of_imp (h : ∀ a, q a = true → p a = true) (l : List α) :
    streak q l ≤ streak p l := by
  induction l with
  | nil => exact le_refl 0
  | cons a l ih =>
      cases hq : q a with
      | false =>
          rw [streak_cons_of_neg hq]
          exact Nat.zero_le _
      | true =>
          rw [streak_cons_of_pos hq, streak_cons_of_pos (h a hq)]
          exact Nat.succ_le_succ ih

end Streak

import Mathlib.Algebra.Order.Group.Defs
import Mathlib.Data.List.Nodup

/-!
# Quotas over sliding windows

`Within n w times` says that every closed window of length `w`, wherever it lies,
contains at most `n` of the given times. Times that rise are within their quota
when an older part is, the newer part has at most `n` times, and nothing of the
newer part comes sooner than `w` after the older one.
-/

namespace Window

/-- If all members that satisfy `p` are the same, there is at most one. -/
theorem countP_le_one {β : Type*} [DecidableEq β] {l : List β} (hnodup : l.Nodup)
    {p : β → Bool} {c : β} (hp : ∀ x ∈ l, p x → x = c) : l.countP p ≤ 1 := by
  have hcount : l.countP p ≤ l.count c :=
    List.countP_mono_left fun x hx hpx => by simpa using hp x hx hpx
  exact hcount.trans (List.nodup_iff_count_le_one.mp hnodup c)

variable {α : Type*} [AddCommGroup α] [LinearOrder α]

/-- At most `n` of the times lie in any closed window of length `w`. -/
def Within (n : ℕ) (w : α) (times : List α) : Prop :=
  ∀ t, times.countP (fun x => decide (t ≤ x ∧ x ≤ t + w)) ≤ n

theorem within_nil (n : ℕ) (w : α) : Within n w [] := by
  intro t
  simp

theorem within_append [IsOrderedAddMonoid α] {n : ℕ} {w : α} {old cur : List α}
    (hn : 2 ≤ n) (hrise : (old ++ cur).Pairwise (· < ·)) (hold : Within n w old)
    (hcur : cur.length ≤ n) (hgap : ∀ a ∈ old, ∀ b ∈ cur, a + w ≤ b) : Within n w (old ++ cur) := by
  intro t
  have hnodup : old.Nodup ∧ cur.Nodup := by
    rw [List.pairwise_append] at hrise
    exact ⟨hrise.1.imp ne_of_lt, hrise.2.1.imp ne_of_lt⟩
  rw [List.countP_append]
  by_cases hleft : ∃ a ∈ old, t ≤ a ∧ a ≤ t + w
  · by_cases hright : ∃ b ∈ cur, t ≤ b ∧ b ≤ t + w
    · -- The window starts with the only old time and ends with the only new one.
      obtain ⟨a, ha, hta, -⟩ := hleft
      obtain ⟨b, hb, -, hbt⟩ := hright
      have hone : old.countP (fun x => decide (t ≤ x ∧ x ≤ t + w)) ≤ 1 := by
        refine countP_le_one hnodup.1 (c := t) fun x hx hwin => ?_
        have hx' : x + w ≤ t + w := (hgap x hx b hb).trans hbt
        exact le_antisymm (le_of_add_le_add_right hx') (of_decide_eq_true hwin).1
      have htwo : cur.countP (fun x => decide (t ≤ x ∧ x ≤ t + w)) ≤ 1 := by
        refine countP_le_one hnodup.2 (c := t + w) fun x hx hwin => ?_
        have hx' : t + w ≤ x := (add_le_add_left hta w).trans (hgap a ha x hx)
        exact le_antisymm (of_decide_eq_true hwin).2 hx'
      omega
    · have hzero : cur.countP (fun x => decide (t ≤ x ∧ x ≤ t + w)) = 0 := by
        rw [List.countP_eq_zero]
        intro b hb hwin
        exact hright ⟨b, hb, of_decide_eq_true hwin⟩
      rw [hzero]
      exact hold t
  · have hzero : old.countP (fun x => decide (t ≤ x ∧ x ≤ t + w)) = 0 := by
      rw [List.countP_eq_zero]
      intro a ha hwin
      exact hleft ⟨a, ha, of_decide_eq_true hwin⟩
    rw [hzero, Nat.zero_add]
    exact List.countP_le_length.trans hcur

end Window

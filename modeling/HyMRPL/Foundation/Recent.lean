import Mathlib.Data.List.DropRight
import Mathlib.Data.List.Induction
import Mathlib.Order.MinMax

/-!
# The latest entries of a history

A buffer that drops its oldest entry keeps the last `n` entries of the history,
`l.rtake n`. Where a predicate, once it holds, holds of all later entries, as it does
for the times of a clock above a bound, the buffer has as many entries that satisfy
it as the history has, up to `n`.

A `Ring` keeps them in slots that are written round and round, and with a count of the
slots in use. What is counted in these slots is what there is in the latest part of the
history.
-/

namespace Recent

variable {α : Type*}

/-- All entries are kept as long as there is room. -/
theorem rtake_of_length_le {l : List α} {n : ℕ} (h : l.length ≤ n) : l.rtake n = l := by
  rw [List.rtake, Nat.sub_eq_zero_of_le h, List.drop_zero]

/-- One entry less is kept of a history that is long enough. -/
theorem rtake_eq_drop_one {l : List α} {n : ℕ} (h : n + 1 ≤ l.length) :
    l.rtake n = (l.rtake (n + 1)).drop 1 := by
  rw [List.rtake, List.rtake, List.drop_drop]
  congr 1
  omega

/-- The entries up to the one that is written. -/
theorem take_succ_set {l : List α} {i : ℕ} (a : α) (hi : i < l.length) :
    (l.set i a).take (i + 1) = l.take i ++ [a] := by
  rw [List.take_add_one, List.take_set_of_le (le_refl i)]
  simp [hi]

theorem countP_rtake {p : α → Bool} {l : List α} (n : ℕ)
    (hlater : l.Pairwise fun a b => p a = true → p b = true) :
    (l.rtake n).countP p = min n (l.countP p) := by
  induction l using List.reverseRecOn generalizing n with
  | nil => simp
  | append_singleton l a ih =>
      have hsplit := List.pairwise_append.mp hlater
      cases n with
      | zero => simp
      | succ n =>
          rw [List.rtake_concat_succ, List.countP_append, List.countP_append, ih n hsplit.1]
          cases ha : p a with
          | true => simp [ha]
          | false =>
              -- Nothing before `a` satisfies the predicate either.
              have hzero : l.countP p = 0 := by
                rw [List.countP_eq_zero]
                intro b hb hpb
                have := hsplit.2.2 b hb a (by simp) hpb
                simp [ha] at this
              simp [hzero, ha]

/-- The entries that are bounded below, in the latest part of a rising history. -/
theorem countP_le_rtake [LinearOrder α] {l : List α} (n : ℕ) (hrise : l.Pairwise (· ≤ ·))
    (t : α) :
    (l.rtake n).countP (fun a => decide (t ≤ a)) =
      min n (l.countP fun a => decide (t ≤ a)) := by
  apply countP_rtake
  apply hrise.imp
  intro a b hab ha
  exact decide_eq_true ((of_decide_eq_true ha).trans hab)

/-- A buffer of `n` slots that is written round and round. As long as it is not full it
holds the history in order; then it holds the last `n` entries, the oldest in the slot
that is written next. -/
structure Ring (n : ℕ) (buf : List α) (idx count : ℕ) (history : List α) : Prop where
  length_eq : buf.length = n
  count_le : count ≤ n
  filling : count < n → idx = count ∧ buf.take count = history
  full : count = n → idx < n ∧ buf.drop idx ++ buf.take idx = history.rtake n

namespace Ring

variable {n : ℕ} {buf : List α} {idx count : ℕ} {history : List α}

/-- While there is room the entry is written behind the others. -/
theorem push_of_room (h : Ring n buf idx count history) (hroom : count < n) (a : α) :
    Ring n (buf.set idx a) ((idx + 1) % n) (count + 1) (history ++ [a]) := by
  have hlength := h.length_eq
  obtain ⟨rfl, hbuf⟩ := h.filling hroom
  have hset : (buf.set idx a).take (idx + 1) = history ++ [a] := by
    rw [take_succ_set a (hlength ▸ hroom), hbuf]
  constructor
  case length_eq => simpa using hlength
  case count_le => exact hroom
  case filling =>
    intro hroom'
    exact ⟨Nat.mod_eq_of_lt hroom', hset⟩
  case full =>
    intro hfull
    have hhistory : (history ++ [a]).length ≤ n := by
      rw [← hset, List.length_take]
      omega
    subst hfull
    rw [Nat.mod_self, rtake_of_length_le hhistory, ← hset]
    refine ⟨Nat.succ_pos idx, ?_⟩
    rw [List.drop_zero, List.take_zero, List.append_nil, List.take_of_length_le]
    simp [hlength]

/-- The slot that is written in a full ring held the oldest entry, which is dropped. -/
theorem rtake_push (hlength : buf.length = n) (hidx : idx < n)
    (hbuf : buf.drop idx ++ buf.take idx = history.rtake n) (a : α) :
    (history ++ [a]).rtake n = buf.drop (idx + 1) ++ (buf.take idx ++ [a]) := by
  have hlt : idx < buf.length := hlength ▸ hidx
  have hlong : n ≤ history.length := by
    have hkept := congrArg List.length hbuf
    rw [List.rtake, List.length_append, List.length_drop, List.length_take,
      List.length_drop] at hkept
    omega
  obtain ⟨m, rfl⟩ : ∃ m, n = m + 1 := ⟨n - 1, by omega⟩
  rw [List.rtake_concat_succ, rtake_eq_drop_one hlong, ← hbuf,
    List.drop_eq_getElem_cons hlt]
  simp only [List.cons_append, List.drop_succ_cons, List.drop_zero, List.append_assoc]

theorem push_of_full (h : Ring n buf idx count history) (hfull : count = n) (a : α) :
    Ring n (buf.set idx a) ((idx + 1) % n) count (history ++ [a]) := by
  have hlength := h.length_eq
  obtain ⟨hidx, hbuf⟩ := h.full hfull
  have hset := take_succ_set a (hlength ▸ hidx : idx < buf.length)
  have hdrop : (buf.set idx a).drop (idx + 1) = buf.drop (idx + 1) :=
    List.drop_set_of_lt (Nat.lt_succ_self idx)
  constructor
  case length_eq => simpa using hlength
  case count_le => exact h.count_le
  case filling => exact fun hroom => absurd hfull hroom.ne
  case full =>
    intro _
    rw [rtake_push hlength hidx hbuf]
    rcases Nat.lt_or_eq_of_le (Nat.succ_le_of_lt hidx) with hnext | hnext
    · rw [Nat.mod_eq_of_lt hnext, hset, hdrop]
      exact ⟨hnext, rfl⟩
    · -- The next slot is the first one again.
      have hwrap : idx + 1 = n := hnext
      rw [hwrap] at hset hdrop ⊢
      rw [Nat.mod_self, ← hset, ← hdrop]
      refine ⟨by omega, ?_⟩
      have hsize : (buf.set idx a).length ≤ n := by simp [hlength]
      rw [List.drop_eq_nil_of_le hsize, List.take_of_length_le hsize, List.drop_zero,
        List.take_zero, List.append_nil, List.nil_append]

theorem push (h : Ring n buf idx count history) (a : α) :
    Ring n (buf.set idx a) ((idx + 1) % n) (if count < n then count + 1 else count)
      (history ++ [a]) := by
  by_cases hroom : count < n
  · rw [if_pos hroom]
    exact h.push_of_room hroom a
  · rw [if_neg hroom]
    exact h.push_of_full (le_antisymm h.count_le (not_lt.mp hroom)) a

/-- The slots in use hold the latest entries of the history. -/
theorem perm (h : Ring n buf idx count history) : (buf.take count).Perm (history.rtake n) := by
  rcases Nat.lt_or_eq_of_le h.count_le with hroom | hfull
  · have ⟨_, hbuf⟩ := h.filling hroom
    have hshort : history.length ≤ n := by
      rw [← hbuf, List.length_take]
      omega
    rw [hbuf, rtake_of_length_le hshort]
  · have ⟨_, hbuf⟩ := h.full hfull
    rw [← hbuf, List.take_of_length_le (by rw [h.length_eq, hfull])]
    calc buf = buf.take idx ++ buf.drop idx := (List.take_append_drop idx buf).symm
      List.Perm _ (buf.drop idx ++ buf.take idx) := List.perm_append_comm

theorem countP_eq (h : Ring n buf idx count history) (p : α → Bool) :
    (buf.take count).countP p = (history.rtake n).countP p :=
  h.perm.countP_eq p

/-- As many slots are in use as there are entries, up to the size. -/
theorem count_eq (h : Ring n buf idx count history) : count = min history.length n := by
  have hlength := h.perm.length_eq
  rw [List.length_take, h.length_eq, min_eq_left h.count_le, List.rtake, List.length_drop]
    at hlength
  omega

theorem idx_lt (h : Ring n buf idx count history) : idx < n := by
  rcases Nat.lt_or_eq_of_le h.count_le with hroom | hfull
  · have ⟨hidx, _⟩ := h.filling hroom
    omega
  · exact (h.full hfull).1

end Ring

end Recent

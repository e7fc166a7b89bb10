import HyMRPL.Monitor.Profile
import HyMRPL.Foundation.Streak

/-!
# What the monitor counts

`decide_profile` documents that it changes the class after `HYSTERESIS_CYCLES`
consecutive cycles. It does so on the way from Class S to Class N, where every other
reading resets the counter. In Class N an overloaded reading leaves the counter alone, and
a change back to Class S may follow that no three consecutive readings favoured: this
happens exactly when one of the two readings before it was overloaded.
-/

namespace HyMRPL

open Transition Streak

namespace Monitor

/-- A reading that was made in `currentClass` and favours the other one. -/
def favouring (currentClass : NodeClass) (entry : NodeClass × Reading) : Bool :=
  decide (entry.1 = currentClass ∧ entry.2.FavoursChange currentClass)

/-- A reading that was not overloaded. -/
def calm (entry : NodeClass × Reading) : Bool := decide (¬ entry.2.Overloaded)

/-- A change of the class comes with a streak of readings, this one included, that were
made in the old class and favoured the new one. -/
def ChangesOnStreak (s : State) (r : Reading) : Prop :=
  (machine.next s r).currentClass ≠ s.currentClass →
    hysteresisCycles ≤ streak (favouring s.currentClass) ((s.currentClass, r) :: s.history)

/-- Where a comfortable reading in Class N finds the counter one below
`HYSTERESIS_CYCLES`, none of as many readings before it was overloaded. -/
def CountUnbroken (s : State) (r : Reading) : Prop :=
  s.currentClass = .classN → r.Comfortable → s.counter + 1 = hysteresisCycles →
    s.counter ≤ streak calm s.history

instance (s : State) (r : Reading) : Decidable (ChangesOnStreak s r) :=
  inferInstanceAs (Decidable (_ → _))

instance (s : State) (r : Reading) : Decidable (CountUnbroken s r) :=
  inferInstanceAs (Decidable (_ → _ → _ → _))

/-- What the counter counts: a streak in Class S, and in Class N a streak as far as no
overloaded reading comes in between. -/
structure Counted (s : State) : Prop where
  counter_lt : s.counter < hysteresisCycles
  le_streak : s.currentClass = .classS → s.counter ≤ streak (favouring .classS) s.history
  le_streak_of_calm : s.currentClass = .classN → s.counter ≤ streak calm s.history →
    s.counter ≤ streak (favouring .classN) s.history

variable {s : State} {r : Reading}

theorem calm_of_favouring (entry : NodeClass × Reading) (h : favouring .classN entry = true) :
    calm entry = true := by
  have hcomfort : entry.2.Comfortable := (of_decide_eq_true h).2
  exact decide_eq_true hcomfort.not_overloaded

theorem favouring_self (h : r.FavoursChange s.currentClass) :
    favouring s.currentClass (s.currentClass, r) = true := by
  simpa [favouring] using h

theorem next_of_favoursChange (h : r.FavoursChange s.currentClass) :
    machine.next s r =
      if hysteresisCycles ≤ s.counter + 1 then
        ⟨s.currentClass.other, 0, (s.currentClass, r) :: s.history⟩
      else ⟨s.currentClass, s.counter + 1, (s.currentClass, r) :: s.history⟩ := by
  have ⟨_, hdecide⟩ := decideProfile_of_favoursChange h s.counter
  simp only [machine, hdecide]
  split_ifs <;> rfl

theorem next_of_not_favoursChange (h : ¬ r.FavoursChange s.currentClass) :
    machine.next s r = ⟨s.currentClass, if r.Overloaded then s.counter else 0,
      (s.currentClass, r) :: s.history⟩ := by
  have ⟨_, hdecide⟩ := decideProfile_of_not_favoursChange h s.counter
  simp only [machine, hdecide]

/-- The class changes at the third reading that is counted. -/
theorem next_class_ne_iff :
    (machine.next s r).currentClass ≠ s.currentClass ↔
      r.FavoursChange s.currentClass ∧ hysteresisCycles ≤ s.counter + 1 := by
  by_cases hfavours : r.FavoursChange s.currentClass
  · by_cases hcount : hysteresisCycles ≤ s.counter + 1
    · simp [next_of_favoursChange hfavours, hcount, hfavours, NodeClass.other_ne]
    · simp [next_of_favoursChange hfavours, hcount]
  · simp [next_of_not_favoursChange hfavours, hfavours]

/-- A new class starts counting from zero. -/
theorem counted_of_zero {currentClass : NodeClass} {history : List (NodeClass × Reading)} :
    Counted ⟨currentClass, 0, history⟩ :=
  ⟨Nat.succ_pos 2, fun _ => Nat.zero_le _, fun _ _ => Nat.zero_le _⟩

/-- A reading that favours the change makes both streaks longer. -/
theorem Counted.of_favoursChange (h : Counted s) (hfavours : r.FavoursChange s.currentClass)
    (hcount : s.counter + 1 < hysteresisCycles) :
    Counted ⟨s.currentClass, s.counter + 1, (s.currentClass, r) :: s.history⟩ := by
  have hself := favouring_self hfavours
  constructor
  case counter_lt => exact hcount
  case le_streak =>
    intro hclass
    have hstreak := h.le_streak hclass
    rw [show s.currentClass = NodeClass.classS from hclass] at hself ⊢
    rw [streak_cons_of_pos hself]
    exact Nat.succ_le_succ hstreak
  case le_streak_of_calm =>
    intro hclass hcalm
    rw [show s.currentClass = NodeClass.classN from hclass] at hself hcalm ⊢
    rw [streak_cons_of_pos (calm_of_favouring _ hself)] at hcalm
    rw [streak_cons_of_pos hself]
    exact Nat.succ_le_succ (h.le_streak_of_calm hclass (Nat.le_of_succ_le_succ hcalm))

/-- An overloaded reading in Class N keeps the counter, and ends the calm. -/
theorem Counted.of_overloaded (h : Counted s) (hover : r.Overloaded)
    (hclass : s.currentClass = .classN) :
    Counted ⟨s.currentClass, s.counter, (s.currentClass, r) :: s.history⟩ := by
  constructor
  case counter_lt => exact h.counter_lt
  case le_streak =>
    intro hclassS
    rw [hclass] at hclassS
    cases hclassS
  case le_streak_of_calm =>
    intro _ hcalm
    rw [streak_cons_of_neg (by simpa [calm] using hover), Nat.le_zero] at hcalm
    exact hcalm.trans_le (Nat.zero_le _)

/-- The step lemma: every reading keeps the count. -/
theorem Counted.next (h : Counted s) (r : Reading) : Counted (machine.next s r) := by
  by_cases hfavours : r.FavoursChange s.currentClass
  · rw [next_of_favoursChange hfavours]
    split_ifs with hcount
    · exact counted_of_zero
    · exact h.of_favoursChange hfavours (not_le.mp hcount)
  · rw [next_of_not_favoursChange hfavours]
    split_ifs with hover
    · -- In Class S an overloaded reading favours the change.
      have hclass : s.currentClass = .classN := by
        cases hclass : s.currentClass with
        | classS => exact absurd (hclass ▸ hover : r.FavoursChange s.currentClass) hfavours
        | classN => rfl
      exact h.of_overloaded hover hclass
    · exact counted_of_zero

/-- A change needs a streak before this reading that is as long as the counter says. -/
theorem changesOnStreak_iff_of_lt (hlt : s.counter < hysteresisCycles) :
    ChangesOnStreak s r ↔ (r.FavoursChange s.currentClass → s.counter + 1 = hysteresisCycles →
      s.counter ≤ streak (favouring s.currentClass) s.history) := by
  rw [ChangesOnStreak, next_class_ne_iff, and_imp]
  refine imp_congr_right fun hfavours => ?_
  rw [streak_cons_of_pos (favouring_self hfavours)]
  constructor
  · intro hstreak hcount
    have hlong := hstreak hcount.ge
    omega
  · intro hstreak hcount
    have hlong := hstreak (le_antisymm hlt hcount)
    omega

/-- Under the count, a change comes with its streak unless the count is broken. -/
theorem Counted.onStreak_iff_unbroken (h : Counted s) (r : Reading) :
    ChangesOnStreak s r ↔ CountUnbroken s r := by
  rw [changesOnStreak_iff_of_lt h.counter_lt]
  cases hclass : s.currentClass with
  | classS =>
      have hstreak := h.le_streak hclass
      simp [CountUnbroken, hclass, hstreak]
  | classN =>
      have hiff : s.counter ≤ streak (favouring .classN) s.history ↔
          s.counter ≤ streak calm s.history := by
        constructor
        · intro hstreak
          exact hstreak.trans (streak_le_of_imp calm_of_favouring _)
        · exact h.le_streak_of_calm hclass
      simp [CountUnbroken, hclass, hiff, Reading.FavoursChange]

/-- Every change of a run comes with its streak if and only if no change back to Class S
is made on a broken count. -/
theorem changesOnStreak_iff (initialClass : NodeClass) (rs : List Reading) :
    machine.Steps ChangesOnStreak (start initialClass) rs ↔
      machine.Steps CountUnbroken (start initialClass) rs :=
  Machine.steps_iff_of_invariant (fun _ r h => h.onStreak_iff_unbroken r)
    (fun _ r h _ => h.next r) counted_of_zero rs

/-- A monitor in Class N: a comfortable reading, an overloaded one, and two comfortable
ones. -/
def overloadBetween : List Reading :=
  [⟨10, 100, 90⟩, ⟨90, 100, 90⟩, ⟨10, 100, 90⟩, ⟨10, 100, 90⟩]

/-- The monitor returns to Class S, although one of the last three readings was
overloaded. -/
theorem overloadBetween_returns :
    machine.outputs (start .classN) overloadBetween =
        [none, none, none, some (classText .classS ++ [0x0a])] ∧
      ¬ ∀ initialClass rs, machine.Steps ChangesOnStreak (start initialClass) rs := by
  constructor
  · decide +kernel
  · intro h
    exact absurd (h .classN overloadBetween) (by decide +kernel)

end Monitor

end HyMRPL

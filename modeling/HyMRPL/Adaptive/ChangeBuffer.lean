import HyMRPL.Adaptive.Run

/-!
# The buffer of the parent changes

`parent_change_times` has four slots and drops the oldest time when they are used up.
While the clock does not go back, the stability that `compute_stability` reads off these
slots is the one of the whole history, and no slot beyond the four is ever used.
-/

namespace HyMRPL

open Transition

/-- The slots of `parent_change_times` that `compute_stability` reads. -/
def computeStabilitySlots (adp : HymrplAdaptive) : List ℕ := List.range adp.parentChangeCount

/-- The slots that `hymrpl_adaptive_parent_changed` uses: the next free one, or those
that `memmove` reads and writes and the last one. -/
def parentChangedSlots (adp : HymrplAdaptive) : List ℕ :=
  if adp.parentChangeCount < hymrplStabilityNmax + 1 then [adp.parentChangeCount]
  else (List.range hymrplStabilityNmax).map (· + 1) ++ List.range hymrplStabilityNmax ++
    [hymrplStabilityNmax]

/-- The slots that an event uses. -/
def changeSlots (adp : HymrplAdaptive) : EngineEvent → List ℕ
  | .eval _ _ => computeStabilitySlots adp
  | .parentChanged _ _ => parentChangedSlots adp
  | .recordDao _ => []
  | .recommend _ => []

variable {adp : HymrplAdaptive}

/-- The stability depends on the slots that are read only. -/
theorem sStab_of_agreeOn {times : Vector ℚ (hymrplStabilityNmax + 1)}
    (h : ∀ i ∈ computeStabilitySlots adp, times.toList[i]? = adp.parentChangeTimes.toList[i]?)
    (now : ℚ) :
    (computeStability now { adp with parentChangeTimes := times }).sStab =
      (computeStability now adp).sStab := by
  have htimes : times.toList.take adp.parentChangeCount =
      adp.parentChangeTimes.toList.take adp.parentChangeCount := by
    apply List.ext_getElem?
    intro i
    rw [List.getElem?_take, List.getElem?_take]
    split_ifs with hi
    · exact h i (List.mem_range.mpr hi)
    · rfl
  simp only [computeStability, htimes]

/-- A change of the parent leaves the other slots alone. -/
theorem parentChangeTimes_of_notMem {i : ℕ} (h : i ∉ parentChangedSlots adp) (now : ℚ)
    (newParent : Option In6Addr) :
    (hymrplAdaptiveParentChanged now adp newParent).parentChangeTimes.toList[i]? =
      adp.parentChangeTimes.toList[i]? := by
  by_cases hroom : adp.parentChangeCount < hymrplStabilityNmax + 1
  · have hne : adp.parentChangeCount ≠ i := by
      rintro rfl
      simp [parentChangedSlots, hroom] at h
    simp [hymrplAdaptiveParentChanged, hroom, List.getElem?_set_ne hne]
  · -- When the times are shifted there are no others.
    have hover : hymrplStabilityNmax + 1 ≤ i := by
      simp only [parentChangedSlots, hroom, if_false, List.mem_append, List.mem_map,
        List.mem_range, List.mem_singleton, not_or] at h
      omega
    rw [List.getElem?_eq_none (by simpa using hover), List.getElem?_eq_none (by simpa using hover)]

/-- With at most four times in use, every event stays within the four slots. -/
theorem lt_of_mem_changeSlots (h : adp.parentChangeCount ≤ hymrplStabilityNmax + 1)
    {e : EngineEvent} {i : ℕ} (hi : i ∈ changeSlots adp e) : i < hymrplStabilityNmax + 1 := by
  cases e with
  | eval now energy => exact (List.mem_range.mp hi).trans_le h
  | parentChanged now newParent =>
      simp only [changeSlots, parentChangedSlots] at hi
      split_ifs at hi with hroom
      · rwa [List.mem_singleton.mp hi]
      · simp only [List.mem_append, List.mem_map, List.mem_range, List.mem_singleton] at hi
        omega
  | recordDao success => exact absurd hi List.not_mem_nil
  | recommend currentClass => exact absurd hi List.not_mem_nil

/-- The values of the clock that the events of a run read. -/
def clockReadings (es : List EngineEvent) : List ℚ :=
  es.filterMap fun
    | .eval now _ => some now
    | .parentChanged now _ => some now
    | .recordDao _ => none
    | .recommend _ => none

theorem parentChangeEvents_sublist (es : List EngineEvent) :
    (parentChangeEvents es).Sublist (clockReadings es) := by
  induction es with
  | nil => exact List.Sublist.refl []
  | cons e es ih =>
      cases e with
      | eval now energy => exact ih.cons now
      | parentChanged now newParent => exact ih.cons_cons now
      | recordDao success => exact ih
      | recommend currentClass => exact ih

/-- In every run every event stays within the slots, and an evaluation finds the stability
of the whole history if the clock has not gone back. -/
theorem changeBuffer_exact (es : List EngineEvent) :
    (∀ e, ∀ i ∈ changeSlots (engine.run hymrplAdaptiveInit es) e, i < hymrplStabilityNmax + 1) ∧
      ∀ now energy, (clockReadings (es ++ [.eval now energy])).Pairwise (· ≤ ·) →
        (engine.run hymrplAdaptiveInit (es ++ [.eval now energy])).sStab =
          1 - min (1 : ℚ) (changesInWindow now (parentChangeEvents es) / hymrplStabilityNmax) := by
  have hchanges : Changes (engine.run hymrplAdaptiveInit es) (parentChangeEvents es) :=
    changes_init.run es
  constructor
  · intro e i hi
    exact lt_of_mem_changeSlots hchanges.1 hi
  · intro now energy hclock
    have hrise : (parentChangeEvents es).Pairwise (· ≤ ·) := by
      rw [clockReadings, List.filterMap_append] at hclock
      exact (List.pairwise_append.mp hclock).1.sublist (parentChangeEvents_sublist es)
    rw [Machine.run_append]
    exact hchanges.sStab hrise now

/-- Five changes of the parent, of which the buffer keeps four. -/
def fiveChanges : List EngineEvent :=
  [1, 2, 3, 4, 55].map fun now => .parentChanged now none

/-- Two of them are no older than a minute at time 64. -/
theorem fiveChanges_sStab :
    (engine.run hymrplAdaptiveInit (fiveChanges ++ [.eval 64 100])).sStab = 1 / 3 := by
  have hclock : (clockReadings (fiveChanges ++ [.eval 64 100])).Pairwise (· ≤ ·) := by
    decide +kernel
  rw [(changeBuffer_exact fiveChanges).2 64 100 hclock]
  decide +kernel

end HyMRPL

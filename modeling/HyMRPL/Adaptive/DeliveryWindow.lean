import HyMRPL.Adaptive.Run

/-!
# The window of the delivery ratio

The twenty slots of `pdr_window` are written round and round and summed from slot 0 on.
After any run the slots that are summed hold the latest outcomes, up to their order, and
the ratio is the one of these outcomes.
-/

namespace HyMRPL

open Transition

/-- The ratio that `compute_pdr` stores. -/
def HymrplAdaptive.deliveryRatio (adp : HymrplAdaptive) : ℚ :=
  if adp.pdrCount = 0 then 100
  else (adp.samples.countP id : ℚ) / (min adp.pdrCount hymrplPdrWindow : ℕ) * 100

variable {adp : HymrplAdaptive}

/-- Only the record of an outcome touches the window, and it stores the new ratio. -/
theorem pdr_engineStep (h : adp.pdr = adp.deliveryRatio) (e : EngineEvent) :
    (engineStep adp e).pdr = (engineStep adp e).deliveryRatio := by
  cases e with
  | eval now energy => exact h
  | recordDao success =>
      simp only [engineStep, hymrplAdaptiveRecordDao, computePdr_eq]
      rfl
  | parentChanged now newParent =>
      obtain ⟨_, _, _, htracked⟩ := hymrplAdaptiveParentChanged_tracked now adp newParent
      rw [engineStep, htracked]
      exact h
  | recommend currentClass =>
      obtain ⟨_, _, hpoll⟩ := hymrplAdaptiveGetRecommendation_metrics adp currentClass
      rw [engineStep, hpoll]
      exact h

theorem pdr_run (h : adp.pdr = adp.deliveryRatio) (es : List EngineEvent) :
    (engine.run adp es).pdr = (engine.run adp es).deliveryRatio := by
  induction es generalizing adp with
  | nil => exact h
  | cons e es ih => exact ih (pdr_engineStep h e)

/-- After a run the slots in use hold the latest outcomes, and the ratio is theirs. -/
theorem pdr_slidingWindow (es : List EngineEvent) :
    let adp := engine.run hymrplAdaptiveInit es
    let outcomes := outcomeEvents es
    adp.pdrIdx < hymrplPdrWindow ∧ adp.pdrCount ≤ hymrplPdrWindow ∧
      adp.samples.Perm (outcomes.rtake hymrplPdrWindow) ∧
      (outcomes ≠ [] →
        0 < min adp.pdrCount hymrplPdrWindow ∧
        adp.pdr = 100 * ((outcomes.rtake hymrplPdrWindow).countP id : ℚ) /
          (min outcomes.length hymrplPdrWindow : ℕ)) := by
  intro adp outcomes
  have hring : Outcomes adp outcomes := outcomes_init.run es
  have hcount : adp.pdrCount = min outcomes.length hymrplPdrWindow := hring.count_eq
  refine ⟨hring.idx_lt, hring.count_le, hring.perm, fun hsome => ?_⟩
  have hpos : 0 < adp.pdrCount := by
    rw [hcount]
    exact lt_min (List.length_pos_iff.mpr hsome) (by decide)
  constructor
  · exact lt_min hpos (by decide)
  · calc adp.pdr = adp.deliveryRatio := pdr_run rfl es
      _ = (adp.samples.countP id : ℚ) / (min adp.pdrCount hymrplPdrWindow : ℕ) * 100 :=
          if_neg hpos.ne'
      _ = 100 * (adp.samples.countP id : ℚ) / (min adp.pdrCount hymrplPdrWindow : ℕ) := by
          rw [mul_comm, mul_div_assoc]
      _ = 100 * ((outcomes.rtake hymrplPdrWindow).countP id : ℚ) /
            (min outcomes.length hymrplPdrWindow : ℕ) := by
          rw [hring.countP_samples, hcount, min_assoc, min_self]

/-- Twenty failures, and then ten successes. -/
def failuresThenSuccesses : List EngineEvent :=
  List.replicate 20 (.recordDao false) ++ List.replicate 10 (.recordDao true)

/-- Half of the latest twenty outcomes were successes. -/
theorem failuresThenSuccesses_pdr :
    (engine.run hymrplAdaptiveInit failuresThenSuccesses).pdr = 50 := by
  have hsome : outcomeEvents failuresThenSuccesses ≠ [] := by decide
  have hpdr := ((pdr_slidingWindow failuresThenSuccesses).2.2.2 hsome).2
  rw [hpdr]
  decide +kernel

end HyMRPL
